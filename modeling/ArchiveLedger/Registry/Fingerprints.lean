import ArchiveLedger.Registry.Steps

/-!
# Confirmed hardware identities

`validate_change_on` compares the trimmed fingerprint of a device with the stored
ones, and the upsert stores a fingerprint as it is given.  A stored fingerprint with
white space at its ends is therefore not found again (`SpacedTwin`); apart from that
no two active confirmed devices share a fingerprint (`fingerprintsDistinct_step`,
`not_twin_of_distinct`).
-/

namespace ArchiveLedger

open Relational Transition

/-- Kind and value of a fingerprint in the form the validation compares. -/
def DeviceSnapshot.normalFingerprint (v : DeviceSnapshot) : Option String × Option String :=
  (v.fingerprintKind.map Text.trim, v.hardwareFingerprint.map Text.trim)

/-- The stored fingerprint is the one the validation would compare. -/
def DeviceSnapshot.Normal (v : DeviceSnapshot) : Prop :=
  (v.fingerprintKind, v.hardwareFingerprint) = v.normalFingerprint

instance (v : DeviceSnapshot) : Decidable v.Normal := inferInstanceAs (Decidable (_ = _))

/-- No two active confirmed devices have the same fingerprint. -/
def FingerprintsDistinct (c : Catalog) : Prop :=
  ∀ r ∈ c.devices.rows, ∀ s ∈ c.devices.rows, r.snapshot.confirmed = true →
    s.snapshot.confirmed = true → r.snapshot.normalFingerprint = s.snapshot.normalFingerprint →
      r.snapshot.deviceId = s.snapshot.deviceId

instance (c : Catalog) : Decidable (FingerprintsDistinct c) :=
  inferInstanceAs (Decidable (∀ r ∈ c.devices.rows, ∀ s ∈ c.devices.rows, _))

/-- No active confirmed device is identified by a filesystem, a partition or a path. -/
def OwnKinds (c : Catalog) : Prop :=
  ∀ r ∈ c.devices.rows, r.snapshot.confirmed = true →
    (r.snapshot.fingerprintKind.map Text.trim).any isArchiveRootFingerprintKind = false

/-- The change confirms a device whose fingerprint another active confirmed device
has, stored with white space around it. -/
def SpacedTwin (c : Catalog) : RegistryChange → Prop
  | .device _ v => v.confirmed = true ∧ ∃ r ∈ c.devices.rows, r.snapshot.deviceId ≠ v.deviceId ∧
      r.snapshot.confirmed = true ∧ r.snapshot.normalFingerprint = v.normalFingerprint ∧
      ¬ r.snapshot.Normal
  | _ => False

theorem fingerprintsDistinct_iff {c : Catalog} :
    FingerprintsDistinct c ↔ ∀ i j v w, deviceAt c i = some v → deviceAt c j = some w →
      v.confirmed = true → w.confirmed = true → v.normalFingerprint = w.normalFingerprint → i = j := by
  constructor
  · intro h i j v w hv hw hcv hcw heq
    obtain ⟨⟨r, hr, rfl⟩, rfl⟩ := deviceAt_eq_some.mp hv
    obtain ⟨⟨s, hs, rfl⟩, rfl⟩ := deviceAt_eq_some.mp hw
    exact h r hr s hs hcv hcw heq
  · intro h r hr s hs hcr hcs heq
    exact h _ _ _ _ (deviceAt_eq_some.mpr ⟨⟨r, hr, rfl⟩, rfl⟩)
      (deviceAt_eq_some.mpr ⟨⟨s, hs, rfl⟩, rfl⟩) hcr hcs heq

theorem map_trim_of_trimmedEvidence {value : Option String} {v : String}
    (h : trimmedEvidence value = some v) : value.map Text.trim = some v :=
  (Option.filter_eq_some_iff.mp h).1

theorem confirmed_iff {v : DeviceSnapshot} :
    v.confirmed = true ↔ v.status = "active" ∧ v.identityState = "confirmed" := by
  simp [DeviceSnapshot.confirmed]

/-- The validation finds every device stored with the fingerprint in its normal form. -/
theorem not_normal_of_checked {c : Catalog} {action : RegistryAction} {v : DeviceSnapshot}
    (hchecked : DeviceChecked c action v) (hv : v.confirmed = true) {r : DeviceRow}
    (hr : r ∈ c.devices.rows) (hid : r.snapshot.deviceId ≠ v.deviceId)
    (hconfirmed : r.snapshot.confirmed = true)
    (heq : r.snapshot.normalFingerprint = v.normalFingerprint) : ¬ r.snapshot.Normal := by
  intro hnormal
  have hidentity := (confirmed_iff.mp hv).2
  obtain ⟨hfingerprint, hkind⟩ := hchecked.evidence hidentity
  obtain ⟨fingerprint, hfingerprint⟩ := Option.isSome_iff_exists.mp hfingerprint
  obtain ⟨kind, hkind⟩ := Option.isSome_iff_exists.mp hkind
  have hstored : (r.snapshot.fingerprintKind, r.snapshot.hardwareFingerprint) =
      (some kind, some fingerprint) := by
    rw [hnormal, heq, DeviceSnapshot.normalFingerprint, map_trim_of_trimmedEvidence hkind,
      map_trim_of_trimmedEvidence hfingerprint]
  have hnone := hchecked.unclaimed hidentity
  rw [duplicateDevice, hkind, hfingerprint] at hnone
  have := List.find?_eq_none.mp hnone r hr
  simp_all

/-- Unless the change meets a spaced twin, the fingerprints stay distinct. -/
theorem fingerprintsDistinct_step {c d : Catalog} {change : RegistryChange}
    (hdistinct : FingerprintsDistinct c) (hstep : RegistryStep c change d)
    (hno : ¬ SpacedTwin c change) : FingerprintsDistinct d := by
  rw [fingerprintsDistinct_iff] at hdistinct ⊢
  obtain ⟨time, -, hdevices, -⟩ := hstep.writes
  cases change with
  | device action v =>
    have hchecked := hstep.deviceChecked
    have hold : ∀ i, v.deviceId ≠ i → deviceAt d i = deviceAt c i := fun i hi => by
      rw [hdevices, RegistryChange.deviceUnder, if_neg hi]
      rfl
    have hnew : deviceAt d v.deviceId = some v := by
      rw [hdevices, RegistryChange.deviceUnder, if_pos rfl]
      rfl
    have htwin : ∀ j w, v.deviceId ≠ j → deviceAt c j = some w → v.confirmed = true →
        w.confirmed = true → w.normalFingerprint ≠ v.normalFingerprint := by
      intro j w hj hw hcv hcw heq
      obtain ⟨⟨r, hr, rfl⟩, rfl⟩ := deviceAt_eq_some.mp hw
      exact hno ⟨hcv, r, hr, hj.symm, hcw, heq,
        not_normal_of_checked hchecked hcv hr hj.symm hcw heq⟩
    intro i j x y hx hy hcx hcy heq
    by_cases hi : v.deviceId = i
    · subst hi
      obtain rfl := Option.some.inj (hnew.symm.trans hx)
      by_contra hj
      rw [hold j hj] at hy
      exact htwin j y hj hy hcx hcy heq.symm
    · rw [hold i hi] at hx
      by_cases hj : v.deviceId = j
      · subst hj
        obtain rfl := Option.some.inj (hnew.symm.trans hy)
        exact absurd heq (htwin i x hi hx hcy hcx)
      · rw [hold j hj] at hy
        exact hdistinct i j x y hx hy hcx hcy heq
  | _ =>
    have hsame : ∀ i, deviceAt d i = deviceAt c i := hdevices
    intro i j x y hx hy
    rw [hsame] at hx hy
    exact hdistinct i j x y hx hy

/-- After a change that meets a spaced twin two devices share a fingerprint. -/
theorem not_twin_of_distinct {c d : Catalog} {change : RegistryChange}
    (hstep : RegistryStep c change d) (hdistinct : FingerprintsDistinct d) :
    ¬ SpacedTwin c change := by
  rw [fingerprintsDistinct_iff] at hdistinct
  obtain ⟨time, -, hdevices, -⟩ := hstep.writes
  cases change with
  | device action v =>
    rintro ⟨hcv, r, hr, hid, hcr, heq, -⟩
    have hnew : deviceAt d v.deviceId = some v := by
      rw [hdevices, RegistryChange.deviceUnder, if_pos rfl]
      rfl
    have hold : deviceAt d r.snapshot.deviceId = some r.snapshot := by
      rw [hdevices, RegistryChange.deviceUnder, if_neg hid.symm]
      exact deviceAt_eq_some.mpr ⟨⟨r, hr, rfl⟩, rfl⟩
    exact hid (hdistinct _ _ _ _ hold hnew hcr hcv heq)
  | _ => exact id

/-- No change confirms a device under the kind of an Archive Root. -/
theorem ownKinds_step {c d : Catalog} {change : RegistryChange} (hown : OwnKinds c)
    (hstep : RegistryStep c change d) : OwnKinds d := by
  obtain ⟨time, -, hdevices, -⟩ := hstep.writes
  intro r hr hconfirmed
  have hat : deviceAt d r.snapshot.deviceId = some r.snapshot :=
    deviceAt_eq_some.mpr ⟨⟨r, hr, rfl⟩, rfl⟩
  rw [hdevices, Option.or_eq_some_iff] at hat
  rcases hat with hwritten | ⟨-, hstored⟩
  · cases change with
    | device action v =>
      rw [RegistryChange.deviceUnder, Option.ite_none_right_eq_some] at hwritten
      obtain ⟨-, hv⟩ := hwritten
      have hv : v = r.snapshot := Option.some.inj hv
      have hchecked := hstep.deviceChecked
      rw [hv] at hchecked
      obtain ⟨-, hkind⟩ := hchecked.evidence (confirmed_iff.mp hconfirmed).2
      obtain ⟨kind, hkind⟩ := Option.isSome_iff_exists.mp hkind
      have hown := hchecked.ownKind
      rw [hkind] at hown
      rw [map_trim_of_trimmedEvidence hkind]
      exact hown
    | _ => cases hwritten
  · obtain ⟨⟨s, hs, hsr⟩, -⟩ := deviceAt_eq_some.mp hstored
    have := hown s hs (by rw [hsr]; exact hconfirmed)
    rwa [hsr] at this

/-- **In every run no active confirmed device is identified like an Archive Root, and
no two share a fingerprint after any call if no change meets a spaced twin**; along the
changes the fingerprints stay distinct if and only if none does. -/
theorem confirmed_fingerprints_distinct (archiveId displayName : String) (ops : List Op) :
    OwnKinds (run next (Catalog.create archiveId displayName) ops) ∧
    (Path (fun c change _ => ¬ SpacedTwin c change) (Catalog.create archiveId displayName)
        (registryTrace (Catalog.create archiveId displayName) ops) →
      ∀ p q, ops = p ++ q →
        FingerprintsDistinct (run next (Catalog.create archiveId displayName) p)) ∧
    ((∀ p q, registryTrace (Catalog.create archiveId displayName) ops = p ++ q →
        FingerprintsDistinct (final (Catalog.create archiveId displayName) p)) ↔
      Path (fun c change _ => ¬ SpacedTwin c change) (Catalog.create archiveId displayName)
        (registryTrace (Catalog.create archiveId displayName) ops)) := by
  obtain ⟨hpath, hlast⟩ := path_registryTrace (Catalog.create archiveId displayName) ops
  have halong := Path.along_iff (R := RegistryStep) (fun _ => id)
    (fun _ _ _ => fingerprintsDistinct_step) (fun _ _ _ _ => not_twin_of_distinct)
    (fun _ hr => absurd hr List.not_mem_nil) hpath
  refine ⟨?_, ?_, halong⟩
  · rw [OwnKinds, hlast.devices]
    exact Path.invariant (P := OwnKinds) (fun _ _ _ => ownKinds_step)
      (fun _ hr => absurd hr List.not_mem_nil) hpath
  · rintro hno p q rfl
    rw [registryTrace_append] at halong hno
    have hsame := (path_registryTrace (Catalog.create archiveId displayName) p).2
    rw [FingerprintsDistinct, hsame.devices]
    exact halong.mpr hno _ _ rfl

/-! ### A spaced twin -/

def sampleDrive (id kind fingerprint : String) : DeviceSnapshot where
  deviceId := id
  displayName := id
  deviceKind := "external"
  serialHint := none
  hardwareFingerprint := some fingerprint
  fingerprintKind := some kind
  identityState := "confirmed"
  owner := none
  status := "active"
  currentSiteId := none
  expectedAvailability := "offline"

/-- The same fingerprint is confirmed twice, first with white space around it. -/
def twinOps : List Op :=
  [.recordBatch [.device .register (sampleDrive "first" "usb_serial" " ab ")] "host" 1,
    .recordBatch [.device .register (sampleDrive "second" "usb_serial" "ab")] "host" 2]

/-- Both devices are stored. -/
theorem spaced_twin_is_confirmed :
    (registryTrace (Catalog.create "archive" "Archive") twinOps).length = 2 ∧
      ¬ FingerprintsDistinct (run next (Catalog.create "archive" "Archive") twinOps) := by
  decide +kernel

end ArchiveLedger
