import ArchiveLedger.Registry.Permanent

/-!
# What the constraints ask of a registry change

One validation serves the permanent history and the catalog, but the tables have more to ask
of a change: unique indexes, `CHECK`s and the range of an integer.  `Applicable` says what that
is for every kind of change, and `exists_apply_iff` that a valid change is applied exactly when
it meets it.  The devices that archive roots and stays name stay known (`devicesKnown_apply`).
-/

namespace ArchiveLedger

open Relational Outcome Transition

/-! ### What the constraints ask beyond the validation -/

/-- The encryption state and the trust level of a Location are known ones. -/
def knownStates (v : LocationSnapshot) : Bool :=
  (v.encryptionState.all fun s => ["encrypted", "unencrypted", "unknown"].contains s) &&
    (v.trustLevel.all fun s => ["trusted", "untrusted", "unknown"].contains s)

/-- What a change has to meet besides its validation. -/
def Applicable (c : Catalog) (host : String) (time : Nat) : RegistryChange → Prop
  | .policy _ v => v.policyVersion ≤ i64Max
  | .device action v =>
      (∀ r ∈ c.devices.rows, r.snapshot.deviceId ≠ v.deviceId →
        devicesConfirmedFingerprint r ⟨v, none, none, none⟩ = false) ∧
      (action = .move → v.currentSiteId ≠ none → ∀ r ∈ c.deviceSiteHistory.rows,
        r.deviceId = v.deviceId → r.arrivedTimeUtcMs ≠ time)
  | .location _ v => knownStates v = true ∧
      ∀ path, v.relativePath = some path → ∃ bytes, registryPathBytes path = .ok bytes
  | .deviceMount v => Text.trim host ≠ "" ∧ c.deviceMounts.get? v.mountId = none
  | _ => True

/-- Archive roots and stays are of devices of the registry. -/
structure DevicesKnown (c : Catalog) : Prop where
  roots : RootsPlaced c
  stays : ∀ r ∈ c.deviceSiteHistory.rows, entityExists c .devices r.deviceId = true

/-! ### Devices -/

theorem exists_upsertDevice {t : Table deviceSchema} {v : DeviceSnapshot} :
    (∃ devices, upsertDevice t v = some devices) ↔ ∀ r ∈ t.rows, r.snapshot.deviceId ≠ v.deviceId →
      devicesConfirmedFingerprint r ⟨v, none, none, none⟩ = false := by
  have hrow : (((t.get? v.deviceId).map fun r : DeviceRow =>
      { r with snapshot := { v with deviceId := r.snapshot.deviceId } }).getD
        ⟨v, none, none, none⟩).snapshot = v := by
    cases hget : t.get? v.deviceId with
    | none => rfl
    | some r =>
      have hid : r.snapshot.deviceId = v.deviceId := Table.key_of_get? hget
      simp [hid]
  have hclash : ∀ r x : DeviceRow, x.snapshot = v →
      devicesConfirmedFingerprint r x = devicesConfirmedFingerprint r ⟨v, none, none, none⟩ := by
    rintro r x rfl
    rfl
  rw [upsertDevice, Table.exists_upsert?]
  refine forall₂_congr fun r _ => imp_congr Iff.rfl ?_
  exact iff_of_eq (congrArg (· = false) (hclash r _ hrow))

theorem departDevice_rows (t : Table deviceSiteSchema) (deviceId : String) (time : Nat) :
    (departDevice t deviceId time).rows = t.rows.map fun r =>
      if (r.deviceId = deviceId && r.departedTimeUtcMs.isNone) = true then
        { r with departedTimeUtcMs := some time } else r := rfl

/-- After a device has left, only another arrival at the same time stands in its way. -/
theorem admits_departed {t : Table deviceSiteSchema} {id site : String} {time : Nat} :
    (departDevice t id time).Admits ⟨id, site, time, none⟩ ↔
      ∀ r ∈ t.rows, r.deviceId = id → r.arrivedTimeUtcMs ≠ time := by
  have hkey : ∀ r : DeviceSiteRow, deviceSiteSchema.key
      (if (r.deviceId = id && r.departedTimeUtcMs.isNone) = true then
        { r with departedTimeUtcMs := some time } else r) = (r.deviceId, r.arrivedTimeUtcMs) := by
    intro r
    split <;> rfl
  constructor
  · intro h r hr hid harrived
    have hmem := List.mem_map_of_mem (f := fun r : DeviceSiteRow =>
      if (r.deviceId = id && r.departedTimeUtcMs.isNone) = true then
        { r with departedTimeUtcMs := some time } else r) hr
    refine (h _ (by rw [departDevice_rows]; exact hmem)).1 ?_
    rw [hkey, hid, harrived]
    rfl
  · intro h s hs
    rw [departDevice_rows] at hs
    obtain ⟨r, hr, rfl⟩ := List.mem_map.mp hs
    refine ⟨?_, ?_⟩
    · rw [hkey]
      intro he
      obtain ⟨hid, harrived⟩ := Prod.ext_iff.mp he
      exact h r hr hid harrived
    · split
      · rfl
      · rename_i hstays
        simp only [Bool.and_eq_true, decide_eq_true_eq, not_and, Bool.not_eq_true] at hstays
        show (r.departedTimeUtcMs.isNone && true && decide (r.deviceId = id)) = false
        by_cases hid : r.deviceId = id
        · rw [hstays hid]
          rfl
        · simp [hid]

theorem exists_insert?_iff {κ ρ : Type} [DecidableEq κ] {S : Schema κ ρ} {t : Table S} {r : ρ} :
    (∃ u, t.insert? r = some u) ↔ t.Admits r := by
  constructor
  · rintro ⟨u, hu⟩
    exact (Table.insert?_eq_some.mp hu).1
  · intro h
    exact ⟨_, dif_pos h⟩

theorem exists_siteIntervals {t : Table deviceSiteSchema} {action : RegistryAction} {v : DeviceSnapshot}
    {time : Nat} (hnew : action = .register → ∀ r ∈ t.rows, r.deviceId ≠ v.deviceId) :
    (∃ sites, siteIntervals t action v time = some sites) ↔
      (action = .move → v.currentSiteId ≠ none → ∀ r ∈ t.rows, r.deviceId = v.deviceId →
        r.arrivedTimeUtcMs ≠ time) := by
  unfold siteIntervals
  cases hsite : v.currentSiteId with
  | none => exact iff_of_true ⟨_, rfl⟩ fun _ h => absurd rfl h
  | some site =>
    cases action with
    | register =>
      refine iff_of_true ?_ (fun h => by cases h)
      refine exists_insert?_iff.mpr fun r hr => ⟨?_, ?_⟩
      · intro he
        exact hnew rfl r hr (Prod.ext_iff.mp he).1
      · simp [deviceSiteSchema, deviceSiteOneOpen, hnew rfl r hr]
    | move =>
      refine Iff.trans (exists_insert?_iff.trans admits_departed) ?_
      exact ⟨fun h _ _ => h, fun h => h rfl (by simp)⟩
    | update => exact iff_of_true ⟨_, rfl⟩ (fun h => by cases h)
    | retire => exact iff_of_true ⟨_, rfl⟩ (fun h => by cases h)

/-! ### Archive roots -/

/-- The row an upsert of an archive root writes. -/
def writtenRoot (t : Table archiveRootSchema) (v : ArchiveRootSnapshot) (bytes : Bytes) (time : Nat) :
    ArchiveRootRow :=
  ((t.get? v.archiveRootId).map fun r => { r with
    snapshot := { r.snapshot with displayName := v.displayName, status := v.status }
    lastSeenTimeUtcMs := some time }).getD ⟨v, bytes, some time⟩

/-- A row that stands for the snapshot of an archive root. -/
structure RootOf (v : ArchiveRootSnapshot) (bytes : Bytes) (r : ArchiveRootRow) : Prop where
  id : r.snapshot.archiveRootId = v.archiveRootId
  status : r.snapshot.status = v.status
  device : r.snapshot.deviceId = v.deviceId
  encoding : r.snapshot.rootPathOnDevice.encoding = v.rootPathOnDevice.encoding
  bytes : r.rootPathOnDeviceBytes = bytes
  fingerprint : r.snapshot.filesystemFingerprint = v.filesystemFingerprint
  fingerprintKind : r.snapshot.fingerprintKind = v.fingerprintKind
  identity : r.snapshot.identityState = v.identityState

theorem RootOf.clash_eq {v : ArchiveRootSnapshot} {bytes : Bytes} {r s : ArchiveRootRow}
    (h : RootOf v bytes r) : archiveRootSchema.clash s r =
      (archiveRootsActivePath s ⟨v, bytes, none⟩ || archiveRootsConfirmedFingerprint s ⟨v, bytes, none⟩) := by
  simp only [archiveRootSchema, archiveRootsActivePath, archiveRootsConfirmedFingerprint,
    ArchiveRootSnapshot.confirmedFingerprint, h.status, h.device, h.encoding, h.bytes, h.fingerprint,
    h.fingerprintKind, h.identity]

/-- What an update has to keep, the row has. -/
theorem writtenRoot_of_ok {c : Catalog} {action : RegistryAction} {v : ArchiveRootSnapshot} {bytes : Bytes}
    {time : Nat} (hnew : action = .register ↔ entityExists c .archiveRoots v.archiveRootId = false)
    (hkeeps : ∀ r, action ≠ .register → c.archiveRoots.get? v.archiveRootId = some r →
      (r.snapshot.deviceId, r.snapshot.rootPathOnDevice.encoding, r.rootPathOnDeviceBytes,
        r.snapshot.filesystemFingerprint, r.snapshot.fingerprintKind, r.snapshot.identityState)
      = (v.deviceId, v.rootPathOnDevice.encoding, bytes, v.filesystemFingerprint, v.fingerprintKind,
        v.identityState)) :
    RootOf v bytes (writtenRoot c.archiveRoots v bytes time) := by
  unfold writtenRoot
  cases hget : c.archiveRoots.get? v.archiveRootId with
  | none => exact ⟨rfl, rfl, rfl, rfl, rfl, rfl, rfl, rfl⟩
  | some r =>
    have hold : action ≠ .register := by
      intro hregister
      have hnone : (c.archiveRoots.get? v.archiveRootId).isSome = false := hnew.mp hregister
      rw [hget] at hnone
      cases hnone
    have hsame := hkeeps r hold hget
    simp only [Prod.mk.injEq] at hsame
    obtain ⟨hdevice, hencoding, hbytes, hfingerprint, hkind, hidentity⟩ := hsame
    exact ⟨Table.key_of_get? hget, rfl, hdevice, hencoding, hbytes, hfingerprint, hkind, hidentity⟩

theorem confirmedFingerprint_eq_some {v : ArchiveRootSnapshot} {kind fingerprint : String} :
    v.confirmedFingerprint = some (kind, fingerprint) ↔ v.status = "active" ∧
      v.identityState = "confirmed" ∧ v.fingerprintKind = some kind ∧
      v.filesystemFingerprint = some fingerprint := by
  unfold ArchiveRootSnapshot.confirmedFingerprint
  split
  · rename_i h
    split
    · rename_i k f hkind hfingerprint
      simp [h, hkind, hfingerprint]
    · rename_i hnone
      refine iff_of_false nofun ?_
      rintro ⟨-, -, hkind, hfingerprint⟩
      exact hnone kind fingerprint hkind hfingerprint
  · rename_i h
    exact iff_of_false nofun fun hall => h ⟨hall.1, hall.2.1⟩

/-- A valid archive root meets the unique indexes. -/
theorem exists_upsertArchiveRoot {c : Catalog} {action : RegistryAction} {v : ArchiveRootSnapshot}
    {time : Nat} {u : Unit} (h : validateArchiveRoot c action v = .ok u) :
    ∃ bytes roots, registryPathBytes v.rootPathOnDevice = .ok bytes ∧
      upsertArchiveRoot c.archiveRoots v bytes time = some roots := by
  obtain ⟨_, hlife, h⟩ := bind_eq_ok.mp h
  obtain ⟨_, -, h⟩ := bind_eq_ok.mp h
  obtain ⟨_, -, h⟩ := bind_eq_ok.mp h
  obtain ⟨_, -, h⟩ := bind_eq_ok.mp h
  obtain ⟨bytes, hbytes, h⟩ := bind_eq_ok.mp h
  obtain ⟨_, hpath, h⟩ := bind_eq_ok.mp h
  obtain ⟨_, hidentity, h⟩ := bind_eq_ok.mp h
  have hkeeps : ∀ r, action ≠ .register → c.archiveRoots.get? v.archiveRootId = some r →
      (r.snapshot.deviceId, r.snapshot.rootPathOnDevice.encoding, r.rootPathOnDeviceBytes,
        r.snapshot.filesystemFingerprint, r.snapshot.fingerprintKind, r.snapshot.identityState)
      = (v.deviceId, v.rootPathOnDevice.encoding, bytes, v.filesystemFingerprint, v.fingerprintKind,
        v.identityState) := by
    intro r hold hget
    rw [if_pos hold, hget] at h
    simpa using refuseIf_eq_ok.mp h
  have hrow : RootOf v bytes (writtenRoot c.archiveRoots v bytes time) :=
    writtenRoot_of_ok (lifecycle_of_ok hlife).2 hkeeps
  have hpath := List.any_eq_false.mp (refuseIf_eq_ok.mp hpath)
  have hidentity := refuseIf_eq_ok.mp hidentity
  refine ⟨bytes, ?_⟩
  have hadmitted : ∃ roots, upsertArchiveRoot c.archiveRoots v bytes time = some roots := by
    rw [upsertArchiveRoot, Table.exists_upsert?]
    intro s hs hne
    show archiveRootSchema.clash s (writtenRoot c.archiveRoots v bytes time) = false
    rw [hrow.clash_eq, Bool.or_eq_false_iff]
    refine ⟨?_, ?_⟩
    · have := hpath s hs
      simp only [archiveRootsActivePath, decide_eq_false_iff_not, Prod.mk.injEq]
      rintro ⟨hactive, -, hdevice, hencoding, hsame⟩
      simp [hactive, hdevice, hencoding, hsame] at this
      exact hne this
    · rw [Bool.eq_false_iff]
      intro hclash
      obtain ⟨hsome, hsame⟩ := Bool.and_eq_true_iff.mp hclash
      obtain ⟨⟨kind, fingerprint⟩, hs'⟩ := Option.isSome_iff_exists.mp hsome
      obtain ⟨hactive, hconfirmed, hkind, hfingerprint⟩ := confirmedFingerprint_eq_some.mp hs'
      obtain ⟨-, hvconfirmed, hvkind, hvfingerprint⟩ :=
        confirmedFingerprint_eq_some.mp ((of_decide_eq_true hsame).symm.trans hs')
      have hfree : v.identityState = "confirmed" → ∀ r ∈ c.archiveRoots.rows,
          v.fingerprintKind.isSome = true → r.snapshot.fingerprintKind = v.fingerprintKind → v.filesystemFingerprint.isSome = true →
          r.snapshot.filesystemFingerprint = v.filesystemFingerprint →
          r.snapshot.identityState = "confirmed" → r.snapshot.status = "active" →
          r.snapshot.archiveRootId = v.archiveRootId := by
        simpa using hidentity
      exact hne (hfree hvconfirmed s hs (by rw [hvkind]; rfl) (hkind.trans hvkind.symm) (by rw [hvfingerprint]; rfl)
        (hfingerprint.trans hvfingerprint.symm) hconfirmed hactive)
  obtain ⟨roots, hroots⟩ := hadmitted
  exact ⟨roots, hbytes, hroots⟩

/-! ### What an application needs -/

theorem registryKind_eq_ok {entity event : String} {action : RegistryAction}
    (h : lifecycleEvent entity action = some event) : ∃ kind, registryKind entity action = .ok kind := by
  cases action with
  | move =>
    rw [lifecycleEvent] at h
    split at h
    · rename_i hdevice
      exact ⟨_, if_pos hdevice⟩
    · cases h
  | _ => exact ⟨_, rfl⟩

theorem exists_optionalPathBytes {path : Option RegistryPath} :
    (∃ bytes, optionalPathBytes path = .ok bytes) ↔
      ∀ p, path = some p → ∃ bytes, registryPathBytes p = .ok bytes := by
  cases path with
  | none =>
    refine iff_of_true ⟨none, rfl⟩ ?_
    intro p hp
    cases hp
  | some path =>
    rw [optionalPathBytes]
    cases hbytes : registryPathBytes path with
    | error e =>
      refine iff_of_false ?_ ?_
      · intro hok
        obtain ⟨b, hb⟩ := hok
        cases hb
      · intro h
        obtain ⟨b, hb⟩ := h path rfl
        rw [hbytes] at hb
        cases hb
    | ok b =>
      refine iff_of_true ⟨some b, rfl⟩ ?_
      intro p hp
      cases hp
      exact ⟨b, hbytes⟩

/-- The topology the `CHECK` asks for, a valid Location has. -/
theorem locationChecks_eq {c : Catalog} {v : LocationSnapshot} {u : Unit}
    (h : validateLocation c v = .ok u) : locationChecks v = knownStates v := by
  obtain ⟨_, -, h⟩ := bind_eq_ok.mp h
  have htopology : ((v.archiveRootId.isSome && v.deviceId.isSome && v.siteId.isNone &&
      v.relativePath.isSome) || (v.archiveRootId.isNone && v.deviceId.isNone && v.siteId.isSome &&
      v.relativePath.isNone)) = true := by
    by_cases hfilesystem : v.kind = "filesystem"
    · rw [if_pos hfilesystem] at h
      split at h
      · rename_i root device path hroot hdevice hpath
        obtain ⟨_, hsite, -⟩ := bind_eq_ok.mp h
        have hsite := Option.isSome_eq_false_iff.mp (refuseIf_eq_ok.mp hsite)
        simp [hroot, hdevice, hpath, hsite]
      · cases h
    · rw [if_neg hfilesystem] at h
      split at h
      · obtain ⟨_, hservice, -⟩ := bind_eq_ok.mp h
        have hservice := refuseIf_eq_ok.mp hservice
        simp only [Bool.or_eq_false_iff, Option.isSome_eq_false_iff, Option.isNone_eq_false_iff]
          at hservice
        obtain ⟨⟨⟨hsite, hroot⟩, hdevice⟩, hpath⟩ := hservice
        rw [hsite, hroot, hdevice, hpath]
        simp
      · cases h
  rw [locationChecks, knownStates, htopology, Bool.and_true]

theorem admits_ofKey {κ ρ : Type} [DecidableEq κ] {key : ρ → κ} {t : Table (Schema.ofKey key)} {r : ρ} :
    t.Admits r ↔ t.get? (key r) = none := by
  rw [Table.get?_eq_none]
  exact ⟨fun h s hs => (h s hs).1, fun h s hs => ⟨h s hs, rfl⟩⟩

/-- **A valid change is applied exactly when the constraints let it.** -/
theorem exists_apply_iff {c : Catalog} {change : RegistryChange} {host event : String} {time : Nat}
    (hknown : DevicesKnown c) (hvalid : validateChangeOn c change = .ok ())
    (hevent : change.eventKind = some event) :
    (∃ kind d, apply c change host time = .ok (kind, d)) ↔ Applicable c host time change := by
  cases change with
  | site action v =>
    obtain ⟨kind, hkind⟩ := registryKind_eq_ok hevent
    exact iff_of_true ⟨kind, _, bind_eq_ok.mpr ⟨kind, hkind, rfl⟩⟩ trivial
  | policy action v =>
    obtain ⟨kind, hkind⟩ := registryKind_eq_ok hevent
    constructor
    · rintro ⟨k, d, h⟩
      obtain ⟨_, -, h⟩ := bind_eq_ok.mp h
      obtain ⟨version, hversion, -⟩ := bind_eq_ok.mp h
      exact (registryInteger_eq_ok.mp hversion).1
    · intro h
      exact ⟨kind, _, bind_eq_ok.mpr ⟨kind, hkind,
        bind_eq_ok.mpr ⟨v.policyVersion, registryInteger_eq_ok.mpr ⟨h, rfl⟩, rfl⟩⟩⟩
  | collection action v =>
    obtain ⟨kind, hkind⟩ := registryKind_eq_ok hevent
    exact iff_of_true ⟨kind, _, bind_eq_ok.mpr ⟨kind, hkind, rfl⟩⟩ trivial
  | device action v =>
    obtain ⟨kind, hkind⟩ := registryKind_eq_ok hevent
    obtain ⟨_, hlife, -⟩ := bind_eq_ok.mp hvalid
    have hnew : action = .register → ∀ r ∈ c.deviceSiteHistory.rows, r.deviceId ≠ v.deviceId := by
      intro hregister r hr hid
      have hexists := hknown.stays r hr
      rw [hid, (lifecycle_of_ok hlife).2.mp hregister] at hexists
      cases hexists
    rw [Applicable, ← exists_upsertDevice, ← exists_siteIntervals hnew]
    constructor
    · rintro ⟨k, d, h⟩
      obtain ⟨_, -, h⟩ := bind_eq_ok.mp h
      obtain ⟨e, he, -⟩ := bind_eq_ok.mp h
      obtain ⟨devices, sites, hdevices, hsites, -⟩ := applyDevice_eq_ok.mp he
      exact ⟨⟨devices, hdevices⟩, sites, hsites⟩
    · rintro ⟨⟨devices, hdevices⟩, sites, hsites⟩
      exact ⟨kind, _, bind_eq_ok.mpr ⟨kind, hkind,
        bind_eq_ok.mpr ⟨_, applyDevice_eq_ok.mpr ⟨devices, sites, hdevices, hsites, rfl⟩, rfl⟩⟩⟩
  | archiveRoot action v =>
    obtain ⟨kind, hkind⟩ := registryKind_eq_ok hevent
    obtain ⟨bytes, roots, hbytes, hroots⟩ : ∃ bytes roots,
        registryPathBytes v.rootPathOnDevice = .ok bytes ∧
          upsertArchiveRoot c.archiveRoots v bytes time = some roots := exists_upsertArchiveRoot hvalid
    have hpath : (registryPathBytes v.rootPathOnDevice).mapError SqliteRegistryError.registry = .ok bytes := by
      rw [hbytes]
      rfl
    exact iff_of_true ⟨kind, _, bind_eq_ok.mpr ⟨kind, hkind, bind_eq_ok.mpr ⟨bytes, hpath,
      bind_eq_ok.mpr ⟨roots, constraint_eq_ok.mpr hroots, rfl⟩⟩⟩⟩ trivial
  | location action v =>
    obtain ⟨kind, hkind⟩ := registryKind_eq_ok hevent
    obtain ⟨_, -, hlocation⟩ := bind_eq_ok.mp hvalid
    rw [Applicable, ← locationChecks_eq hlocation, ← exists_optionalPathBytes]
    constructor
    · rintro ⟨k, d, h⟩
      obtain ⟨_, -, h⟩ := bind_eq_ok.mp h
      obtain ⟨e, he, -⟩ := bind_eq_ok.mp h
      obtain ⟨bytes, hbytes, hchecks, -⟩ := applyLocation_eq_ok.mp he
      exact ⟨hchecks, bytes, hbytes⟩
    · rintro ⟨hchecks, bytes, hbytes⟩
      exact ⟨kind, _, bind_eq_ok.mpr ⟨kind, hkind,
        bind_eq_ok.mpr ⟨_, applyLocation_eq_ok.mpr ⟨bytes, hbytes, hchecks, rfl⟩, rfl⟩⟩⟩
  | riskDomain action v =>
    obtain ⟨kind, hkind⟩ := registryKind_eq_ok hevent
    exact iff_of_true ⟨kind, _, bind_eq_ok.mpr ⟨kind, hkind, rfl⟩⟩ trivial
  | assignRisk v =>
    obtain ⟨_, -, hvalid⟩ := bind_eq_ok.mp hvalid
    obtain ⟨table, -, hvalid⟩ := bind_eq_ok.mp hvalid
    obtain ⟨_, -, hvalid⟩ := bind_eq_ok.mp hvalid
    have hfree : c.entityRiskDomains.get? v = none := by
      by_contra hassigned
      rw [if_pos ⟨rfl, Option.isSome_iff_ne_none.mpr hassigned⟩] at hvalid
      cases hvalid
    obtain ⟨assigned, hassigned⟩ := exists_insert?_iff.mpr (admits_ofKey.mpr hfree)
    exact iff_of_true ⟨_, _, bind_eq_ok.mpr ⟨assigned, constraint_eq_ok.mpr hassigned, rfl⟩⟩ trivial
  | unassignRisk v => exact iff_of_true ⟨_, _, rfl⟩ trivial
  | deviceCheckIn v => exact iff_of_true ⟨_, _, rfl⟩ trivial
  | deviceMount v =>
    have hfree : c.deviceMounts.get? v.mountId = none ↔
        ∃ mounts, c.deviceMounts.insert? ⟨v, host, time⟩ = some mounts :=
      ((exists_insert?_iff (t := c.deviceMounts) (r := ⟨v, host, time⟩)).trans admits_ofKey).symm
    rw [Applicable, hfree]
    constructor
    · rintro ⟨k, d, h⟩
      obtain ⟨e, he, -⟩ := bind_eq_ok.mp h
      obtain ⟨hhost, mounts, hmounts, -⟩ := applyDeviceMount_eq_ok.mp he
      exact ⟨hhost, mounts, hmounts⟩
    · rintro ⟨hhost, mounts, hmounts⟩
      exact ⟨_, _, bind_eq_ok.mpr ⟨_, applyDeviceMount_eq_ok.mpr ⟨hhost, mounts, hmounts, rfl⟩, rfl⟩⟩

/-! ### What an application keeps -/

theorem entityExists_apply {c d : Catalog} {change : RegistryChange} {host kind id : String} {time : Nat}
    (h : apply c change host time = .ok (kind, d)) (hid : entityExists c .devices id = true) :
    entityExists d .devices id = true := by
  rw [entityExists_devices] at hid ⊢
  rw [(apply_writes h).devices id]
  cases change.deviceUnder id with
  | none => exact hid
  | some v => rfl

theorem known_writtenRoot {c : Catalog} {v : ArchiveRootSnapshot} {bytes : Bytes} {time : Nat}
    (hplaced : RootsPlaced c) (hdevice : entityExists c .devices v.deviceId = true) :
    entityExists c .devices (writtenRoot c.archiveRoots v bytes time).snapshot.deviceId = true := by
  unfold writtenRoot
  cases hget : c.archiveRoots.get? v.archiveRootId with
  | none => exact hdevice
  | some r => exact hplaced r (Table.mem_of_get? hget)

theorem rootsPlaced_apply {c d : Catalog} {change : RegistryChange} {host kind : String} {time : Nat}
    (hplaced : RootsPlaced c) (hvalid : validateChangeOn c change = .ok ())
    (h : apply c change host time = .ok (kind, d)) : RootsPlaced d := by
  have hkept : d.archiveRoots = c.archiveRoots → RootsPlaced d := by
    intro hroots r hr
    rw [hroots] at hr
    exact entityExists_apply h (hplaced r hr)
  cases change with
  | archiveRoot action v =>
    intro r hr
    refine entityExists_apply h ?_
    obtain ⟨_, -, h⟩ := bind_eq_ok.mp h
    obtain ⟨bytes, -, h⟩ := bind_eq_ok.mp h
    obtain ⟨roots, hroots, h⟩ := bind_eq_ok.mp h
    cases h
    rcases (Table.mem_rows_upsert? (constraint_eq_ok.mp hroots)).mp hr with hwritten | ⟨-, hr⟩
    · obtain ⟨_, -, hvalid⟩ := bind_eq_ok.mp hvalid
      obtain ⟨_, hdevice, -⟩ := bind_eq_ok.mp hvalid
      have hwritten : r = writtenRoot c.archiveRoots v bytes time := hwritten
      rw [hwritten]
      exact known_writtenRoot hplaced (requireEntity_eq_ok.mp hdevice)
    · exact hplaced r hr
  | site action v | collection action v | riskDomain action v =>
    obtain ⟨_, -, h'⟩ := bind_eq_ok.mp h
    cases h'
    exact hkept rfl
  | policy action v =>
    obtain ⟨_, -, h'⟩ := bind_eq_ok.mp h
    obtain ⟨_, -, h'⟩ := bind_eq_ok.mp h'
    cases h'
    exact hkept rfl
  | device action v =>
    obtain ⟨_, -, h'⟩ := bind_eq_ok.mp h
    obtain ⟨e, he, h'⟩ := bind_eq_ok.mp h'
    cases h'
    obtain ⟨devices, sites, -, -, rfl⟩ := applyDevice_eq_ok.mp he
    exact hkept rfl
  | location action v =>
    obtain ⟨_, -, h'⟩ := bind_eq_ok.mp h
    obtain ⟨e, he, h'⟩ := bind_eq_ok.mp h'
    cases h'
    obtain ⟨bytes, -, -, rfl⟩ := applyLocation_eq_ok.mp he
    exact hkept rfl
  | assignRisk v =>
    obtain ⟨_, -, h'⟩ := bind_eq_ok.mp h
    cases h'
    exact hkept rfl
  | unassignRisk v | deviceCheckIn v =>
    cases h
    exact hkept rfl
  | deviceMount v =>
    obtain ⟨e, he, h'⟩ := bind_eq_ok.mp h
    cases h'
    obtain ⟨-, mounts, -, rfl⟩ := applyDeviceMount_eq_ok.mp he
    exact hkept rfl

/-- A stay a device change leaves is one of the device or one there was. -/
theorem mem_siteIntervals {t u : Table deviceSiteSchema} {action : RegistryAction} {v : DeviceSnapshot}
    {time : Nat} (h : siteIntervals t action v time = some u) {r : DeviceSiteRow} (hr : r ∈ u.rows) :
    r.deviceId = v.deviceId ∨ ∃ s ∈ t.rows, s.deviceId = r.deviceId := by
  have hdeparted : ∀ r ∈ (if action = .move then departDevice t v.deviceId time else t).rows,
      ∃ s ∈ t.rows, s.deviceId = r.deviceId := by
    intro r hr
    split at hr
    · rw [departDevice_rows] at hr
      obtain ⟨s, hs, rfl⟩ := List.mem_map.mp hr
      refine ⟨s, hs, ?_⟩
      split <;> rfl
    · exact ⟨r, hr, rfl⟩
  unfold siteIntervals at h
  dsimp only at h
  split at h
  · rename_i site hsite
    by_cases harrives : action = .register ∨ action = .move
    · rw [if_pos harrives] at h
      rcases (Table.mem_rows_insert h).mp hr with hr | rfl
      · exact Or.inr (hdeparted r hr)
      · exact Or.inl rfl
    · rw [if_neg harrives, Option.some.injEq] at h
      subst h
      exact Or.inr (hdeparted r hr)
  · rw [Option.some.injEq] at h
    subst h
    exact Or.inr (hdeparted r hr)

theorem devicesKnown_apply {c d : Catalog} {change : RegistryChange} {host kind : String} {time : Nat}
    (hknown : DevicesKnown c) (hvalid : validateChangeOn c change = .ok ())
    (h : apply c change host time = .ok (kind, d)) : DevicesKnown d := by
  refine ⟨rootsPlaced_apply hknown.roots hvalid h, ?_⟩
  intro r hr
  have hwrites := apply_writes h
  have hkept : r ∈ c.deviceSiteHistory.rows → entityExists d .devices r.deviceId = true :=
    fun hr => entityExists_apply h (hknown.stays r hr)
  have hsites := hwrites.sites
  cases change with
  | device action v =>
    rcases mem_siteIntervals hsites hr with hid | ⟨s, hs, hid⟩
    · rw [entityExists_devices, hwrites.devices, hid, RegistryChange.deviceUnder, if_pos rfl]
      rfl
    · rw [← hid]
      exact entityExists_apply h (hknown.stays s hs)
  | _ =>
    refine hkept ?_
    rw [Option.some.inj hsites]
    exact hr

end ArchiveLedger
