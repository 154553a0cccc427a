import ArchiveLedger.Catalog.Effects

/-!
# The registry changes of a run

`registryTrace` lists the changes a run commits, each with the catalog it leads to
inside its batch.  Between two of them the other calls move the catalog, and none
of these writes a registry table (`SameRegistry`), so a run is a path of
`RegistryStep`s as far as the registry goes (`path_registryTrace`,
`sameRegistry_registryTrace`).

What one change does to the policies, the devices and the site intervals is said
once, in `Writes`, and `RegistryStep.writes` holds of every change of a run.
-/

namespace ArchiveLedger

open Relational Transition

/-! ### Calls that leave the registry alone -/

/-- The registry tables of two catalogs are the same. -/
structure SameRegistry (c d : Catalog) : Prop where
  sites : d.sites = c.sites
  policies : d.policies = c.policies
  collections : d.collections = c.collections
  devices : d.devices = c.devices
  deviceSiteHistory : d.deviceSiteHistory = c.deviceSiteHistory
  archiveRoots : d.archiveRoots = c.archiveRoots
  locations : d.locations = c.locations
  deviceMounts : d.deviceMounts = c.deviceMounts
  riskDomains : d.riskDomains = c.riskDomains
  entityRiskDomains : d.entityRiskDomains = c.entityRiskDomains

theorem SameRegistry.refl (c : Catalog) : SameRegistry c c :=
  ⟨rfl, rfl, rfl, rfl, rfl, rfl, rfl, rfl, rfl, rfl⟩

theorem SameRegistry.trans {c d e : Catalog} (h : SameRegistry c d) (h' : SameRegistry d e) :
    SameRegistry c e :=
  ⟨h'.sites.trans h.sites, h'.policies.trans h.policies, h'.collections.trans h.collections,
    h'.devices.trans h.devices, h'.deviceSiteHistory.trans h.deviceSiteHistory,
    h'.archiveRoots.trans h.archiveRoots, h'.locations.trans h.locations,
    h'.deviceMounts.trans h.deviceMounts, h'.riskDomains.trans h.riskDomains,
    h'.entityRiskDomains.trans h.entityRiskDomains⟩

theorem sameRegistry_bumpRevision (c : Catalog) : SameRegistry c c.bumpRevision :=
  ⟨rfl, rfl, rfl, rfl, rfl, rfl, rfl, rfl, rfl, rfl⟩

theorem sameRegistry_submit {newId : String} {c : Catalog} {o : CatalogObservation} {s : Submission}
    (h : submit newId c o = .ok s) : SameRegistry c s.tx := by
  rcases submit_eq_ok.mp h with ⟨key, stored, -, -, -, -, rfl⟩ | ⟨-, path, time, -, hstore, -, -⟩
  · exact ⟨rfl, rfl, rfl, rfl, rfl, rfl, rfl, rfl, rfl, rfl⟩
  · rcases storeOutcome_eq_ok.mp hstore with ⟨-, htx⟩ | ⟨key, t, -, -, htx⟩
    · rw [htx]
      exact ⟨rfl, rfl, rfl, rfl, rfl, rfl, rfl, rfl, rfl, rfl⟩
    · rw [htx]
      exact ⟨rfl, rfl, rfl, rfl, rfl, rfl, rfl, rfl, rfl, rfl⟩

theorem sameRegistry_observeLoop {newIds : Nat → String} {tx d : Catalog}
    {observations : List CatalogObservation} {outcomes : List ObservationOutcome} {changed : Bool}
    (h : observeLoop newIds tx observations = .ok (outcomes, changed, d)) : SameRegistry tx d := by
  induction observations generalizing newIds tx outcomes changed with
  | nil => cases h; exact .refl _
  | cons o rest ih =>
    obtain ⟨s, more, changedMore, hs, hmore, -, -⟩ := observeLoop_cons.mp h
    exact (sameRegistry_submit hs).trans (ih hmore)

/-- Only `record_batch` writes registry tables. -/
theorem sameRegistry_exec {c d : Catalog} {op : Op} (h : exec c op = some d)
    (hop : ∀ changes hostId time, op ≠ .recordBatch changes hostId time) : SameRegistry c d := by
  cases op with
  | observeBatch newIds observations =>
    obtain ⟨outcomes, hbatch⟩ := exec_observeBatch.mp h
    obtain ⟨changed, tx, hloop, rfl⟩ := observeBatch_eq_ok.mp hbatch
    have hsame := sameRegistry_observeLoop hloop
    cases changed
    · exact hsame
    · exact hsame.trans (sameRegistry_bumpRevision tx)
  | beginCatalogJob id kind parameters time =>
    obtain ⟨⟨status, e⟩, he, rfl⟩ := Option.map_eq_some_iff.mp h
    rcases beginCatalogJob_eq_ok (toOption_eq_some.mp he) with ⟨job, -, rfl⟩ | ⟨-, -, t, rfl⟩
    · exact .refl _
    · exact ⟨rfl, rfl, rfl, rfl, rfl, rfl, rfl, rfl, rfl, rfl⟩
  | resetScanCoverage jobId =>
    obtain ⟨-, rfl⟩ := resetScanCoverage_eq_ok.mp (toOption_eq_some.mp h)
    exact ⟨rfl, rfl, rfl, rfl, rfl, rfl, rfl, rfl, rfl, rfl⟩
  | checkpointCatalogJob jobId progress =>
    obtain ⟨-, rfl⟩ := checkpointCatalogJob_eq_ok.mp (toOption_eq_some.mp h)
    exact ⟨rfl, rfl, rfl, rfl, rfl, rfl, rfl, rfl, rfl, rfl⟩
  | finishCatalogScan jobId collectionId locationId completeCoverage time summary =>
    obtain ⟨⟨missing, e⟩, he, rfl⟩ := Option.map_eq_some_iff.mp h
    cases completeCoverage with
    | true =>
      obtain ⟨-, -, -, -, hd⟩ := finishCatalogScan_complete.mp (toOption_eq_some.mp he)
      rw [hd]
      exact ⟨rfl, rfl, rfl, rfl, rfl, rfl, rfl, rfl, rfl, rfl⟩
    | false =>
      obtain ⟨-, -, -, hd⟩ := finishCatalogScan_incomplete.mp (toOption_eq_some.mp he)
      rw [hd]
      exact ⟨rfl, rfl, rfl, rfl, rfl, rfl, rfl, rfl, rfl, rfl⟩
  | finishCatalogJob jobId status time summary =>
    rcases finishCatalogJob_eq_ok (toOption_eq_some.mp h) with rfl | ⟨terminal, -, -, -, rfl⟩
    · exact .refl _
    · exact ⟨rfl, rfl, rfl, rfl, rfl, rfl, rfl, rfl, rfl, rfl⟩
  | markRemoved request time =>
    obtain ⟨⟨result, e⟩, he, rfl⟩ := Option.map_eq_some_iff.mp h
    obtain ⟨-, selection, -, -, -, ⟨-, hd⟩ | ⟨-, -, hd⟩⟩ :=
      markRemoved_eq_ok.mp (toOption_eq_some.mp he)
    · rw [hd]
      exact .refl _
    · rw [hd]
      exact ⟨rfl, rfl, rfl, rfl, rfl, rfl, rfl, rfl, rfl, rfl⟩
  | recordBatch changes hostId time => exact absurd rfl (hop changes hostId time)
  | renameArchive name time =>
    obtain ⟨t, rfl⟩ := renameArchive_eq_ok (toOption_eq_some.mp h)
    exact ⟨rfl, rfl, rfl, rfl, rfl, rfl, rfl, rfl, rfl, rfl⟩

/-! ### The changes of a run -/

/-- The changes of a batch that commits, each with the catalog it leads to. -/
def registrySteps (c : Catalog) (op : Op) : List (RegistryChange × Catalog) :=
  match op with
  | .recordBatch changes hostId time =>
      match recordBatch c changes hostId time with
      | .ok _ => (steps (recordChange hostId time) c changes).map Prod.snd
      | .error _ => []
  | _ => []

/-- The changes of a run. -/
def registryTrace (c : Catalog) : List Op → List (RegistryChange × Catalog)
  | [] => []
  | op :: ops => registrySteps c op ++ registryTrace (next c op) ops

theorem registryTrace_append (c : Catalog) (ops more : List Op) :
    registryTrace c (ops ++ more) = registryTrace c ops ++ registryTrace (run next c ops) more := by
  induction ops generalizing c with
  | nil => rfl
  | cons op ops ih => rw [List.cons_append, registryTrace, registryTrace, ih, List.append_assoc,
      run_cons]

/-- A change that a batch made on these registry tables. -/
def RegistryStep (c : Catalog) (change : RegistryChange) (d : Catalog) : Prop :=
  ∃ hostId time b, SameRegistry c b ∧ recordChange hostId time b change = .ok d

theorem RegistryStep.of_same {c c' d : Catalog} {change : RegistryChange} (hsame : SameRegistry c c')
    (h : RegistryStep c' change d) : RegistryStep c change d := by
  obtain ⟨hostId, time, b, hb, hrec⟩ := h
  exact ⟨hostId, time, b, hsame.trans hb, hrec⟩

theorem path_of_same {c c' : Catalog} {p : List (RegistryChange × Catalog)}
    (hsame : SameRegistry c c') (h : Path RegistryStep c' p) : Path RegistryStep c p := by
  cases p with
  | nil => trivial
  | cons e p => exact ⟨h.1.of_same hsame, h.2⟩

theorem sameRegistry_final {c c' : Catalog} (hsame : SameRegistry c c')
    (p : List (RegistryChange × Catalog)) : SameRegistry (final c p) (final c' p) := by
  cases p with
  | nil => exact hsame
  | cons e p => exact .refl _

/-- The changes of one call lead to the registry it leaves. -/
theorem path_registrySteps (c : Catalog) (op : Op) :
    Path RegistryStep c (registrySteps c op) ∧
      SameRegistry (final c (registrySteps c op)) (next c op) := by
  have hother : (∀ changes hostId time, op ≠ .recordBatch changes hostId time) →
      SameRegistry c (next c op) := by
    intro hop
    cases he : exec c op with
    | none => rw [next_of_failure he]; exact .refl c
    | some d => rw [next_of_exec he]; exact sameRegistry_exec he hop
  cases op with
  | recordBatch changes hostId time =>
    cases hb : recordBatch c changes hostId time with
    | error e =>
      have he : exec c (.recordBatch changes hostId time) = none := by
        rw [exec, hb]
        rfl
      rw [registrySteps, hb, next_of_failure he]
      exact ⟨trivial, .refl c⟩
    | ok result =>
      obtain ⟨commit, d⟩ := result
      obtain ⟨-, -, tx, htx, hd⟩ := recordBatch_eq_ok hb
      have he : exec c (.recordBatch changes hostId time) = some d := by
        rw [exec, hb]
        rfl
      rw [registrySteps, hb, next_of_exec he, hd]
      refine ⟨(path_steps _ c changes).mono fun s i t h => ⟨hostId, time, s, .refl s, h⟩, ?_⟩
      rw [final_steps htx]
      exact sameRegistry_bumpRevision tx
  | _ => exact ⟨trivial, hother (by intro _ _ _ h; cases h)⟩

/-- **A run is a path of its registry changes, and they lead to the registry it leaves.** -/
theorem path_registryTrace (c : Catalog) (ops : List Op) :
    Path RegistryStep c (registryTrace c ops) ∧
      SameRegistry (final c (registryTrace c ops)) (run next c ops) := by
  induction ops generalizing c with
  | nil => exact ⟨trivial, .refl c⟩
  | cons op ops ih =>
    obtain ⟨hpath, hsame⟩ := path_registrySteps c op
    obtain ⟨hrest, hend⟩ := ih (next c op)
    refine ⟨path_append.mpr ⟨hpath, path_of_same hsame hrest⟩, ?_⟩
    rw [registryTrace, final_append, run_cons]
    exact (sameRegistry_final hsame _).trans hend

/-! ### What a change that was made had passed -/

@[simp] theorem refuseIf_eq_ok {condition : Bool} {message : String} {u : Unit} :
    refuseIf condition message = .ok u ↔ condition = false := by
  cases condition <;> simp [refuseIf]

/-- Retiring leaves a row retired and every other action leaves it active; only
registering is for an identifier that is new. -/
theorem lifecycle_of_ok {c : Catalog} {table : RegistryTable} {kind id displayName status : String}
    {action : RegistryAction} {u : Unit}
    (h : validateLifecycle c table kind id displayName status action = .ok u) :
    status = (if action = .retire then "retired" else "active") ∧
      (action = .register ↔ entityExists c table id = false) := by
  unfold validateLifecycle at h
  obtain ⟨_, -, h⟩ := bind_eq_ok.mp h
  obtain ⟨_, -, h⟩ := bind_eq_ok.mp h
  obtain ⟨_, hstatus, h⟩ := bind_eq_ok.mp h
  refine ⟨by simpa using refuseIf_eq_ok.mp hstatus, ?_⟩
  dsimp only at h
  split at h
  · cases h
  · rename_i hnew
    split at h
    · cases h
    · rename_i hold
      constructor
      · intro haction
        simpa [haction] using hnew
      · intro hnone
        simpa [hnone] using hold

/-- The snapshot of a device. -/
def deviceAt (c : Catalog) (id : String) : Option DeviceSnapshot :=
  (c.devices.get? id).map DeviceRow.snapshot

theorem deviceAt_eq_some {c : Catalog} {id : String} {v : DeviceSnapshot} :
    deviceAt c id = some v ↔ (∃ r ∈ c.devices.rows, r.snapshot = v) ∧ v.deviceId = id := by
  rw [deviceAt, Option.map_eq_some_iff]
  constructor
  · rintro ⟨r, hr, rfl⟩
    exact ⟨⟨r, Table.mem_of_get? hr, rfl⟩, Table.key_of_get? hr⟩
  · rintro ⟨⟨r, hr, rfl⟩, rfl⟩
    exact ⟨r, Table.get?_of_mem hr, rfl⟩

theorem SameRegistry.deviceAt_eq {c d : Catalog} (h : SameRegistry c d) : deviceAt d = deviceAt c := by
  funext id
  rw [deviceAt, deviceAt, h.devices]

theorem entityExists_devices (c : Catalog) (id : String) :
    entityExists c .devices id = (deviceAt c id).isSome := by
  rw [entityExists, deviceAt, Option.isSome_map]

/-- The checks a device change has passed that was made. -/
structure DeviceChecked (c : Catalog) (action : RegistryAction) (v : DeviceSnapshot) : Prop where
  status : v.status = if action = .retire then "retired" else "active"
  registered : action = .register ↔ deviceAt c v.deviceId = none
  kept : action = .update → (deviceAt c v.deviceId).bind DeviceSnapshot.currentSiteId =
    v.currentSiteId
  evidence : v.identityState = "confirmed" → (trimmedEvidence v.hardwareFingerprint).isSome ∧
    (trimmedEvidence v.fingerprintKind).isSome
  ownKind : (trimmedEvidence v.fingerprintKind).any isArchiveRootFingerprintKind = false
  unclaimed : v.identityState = "confirmed" → duplicateDevice c v.deviceId
    (trimmedEvidence v.fingerprintKind) (trimmedEvidence v.hardwareFingerprint) = none

theorem kept_of_validateDeviceSite {c : Catalog} {v : DeviceSnapshot} {u : Unit}
    (h : validateDeviceSite c .update v = .ok u) :
    (deviceAt c v.deviceId).bind DeviceSnapshot.currentSiteId = v.currentSiteId := by
  rw [validateDeviceSite, if_pos (Or.inl rfl)] at h
  rw [deviceAt]
  split at h
  · rename_i current hcurrent
    obtain ⟨_, hkept, -⟩ := bind_eq_ok.mp h
    rw [hcurrent]
    simpa using refuseIf_eq_ok.mp hkept
  · cases h

theorem deviceChecked_of_ok {c : Catalog} {action : RegistryAction} {v : DeviceSnapshot} {u : Unit}
    (h : validateDevice c action v = .ok u) : DeviceChecked c action v := by
  obtain ⟨_, hlife, h⟩ := bind_eq_ok.mp h
  obtain ⟨_, -, h⟩ := bind_eq_ok.mp h
  obtain ⟨_, hidentity, hsite⟩ := bind_eq_ok.mp h
  obtain ⟨hstatus, hregistered⟩ := lifecycle_of_ok hlife
  obtain ⟨_, -, hidentity⟩ := bind_eq_ok.mp hidentity
  obtain ⟨_, -, hidentity⟩ := bind_eq_ok.mp hidentity
  obtain ⟨_, -, hidentity⟩ := bind_eq_ok.mp hidentity
  obtain ⟨_, hevidence, hidentity⟩ := bind_eq_ok.mp hidentity
  obtain ⟨_, -, hidentity⟩ := bind_eq_ok.mp hidentity
  obtain ⟨_, hkind, hidentity⟩ := bind_eq_ok.mp hidentity
  refine ⟨hstatus, ?_, ?_, ?_, refuseIf_eq_ok.mp hkind, ?_⟩
  · rw [hregistered, entityExists_devices]
    simp
  · rintro rfl
    exact kept_of_validateDeviceSite hsite
  · intro hconfirmed
    have := refuseIf_eq_ok.mp hevidence
    simp only [hconfirmed, decide_true, Bool.true_or, Bool.true_and, Bool.or_eq_false_iff,
      Option.isNone_eq_false_iff] at this
    exact this
  · intro hconfirmed
    rw [if_pos hconfirmed] at hidentity
    split at hidentity
    · cases hidentity
    · assumption

/-- The checks a policy change has passed that was made. -/
structure PolicyChecked (c : Catalog) (action : RegistryAction) (v : PolicySnapshot) : Prop where
  registered : action = .register ↔ c.policies.get? v.policyId = none
  raised : action = .update →
    ∀ w, c.policies.get? v.policyId = some w → w.policyVersion < v.policyVersion

theorem policyChecked_of_ok {c : Catalog} {action : RegistryAction} {v : PolicySnapshot} {u : Unit}
    (h : validatePolicy c action v = .ok u) : PolicyChecked c action v := by
  obtain ⟨_, hlife, h⟩ := bind_eq_ok.mp h
  obtain ⟨_, -, h⟩ := bind_eq_ok.mp h
  obtain ⟨_, -, h⟩ := bind_eq_ok.mp h
  obtain ⟨-, hregistered⟩ := lifecycle_of_ok hlife
  refine ⟨by rw [hregistered, entityExists]; simp, ?_⟩
  rintro rfl w hw
  rw [if_pos rfl, hw] at h
  simpa using refuseIf_eq_ok.mp h

/-- A change that was made had passed its validation. -/
theorem RegistryStep.validated {c d : Catalog} {change : RegistryChange}
    (h : RegistryStep c change d) :
    ∃ b, SameRegistry c b ∧ validateChangeOn b change = .ok () := by
  obtain ⟨hostId, time, b, hsame, hrec⟩ := h
  exact ⟨b, hsame, (recordChange_eq_ok.mp hrec).1⟩

theorem RegistryStep.policyChecked {c d : Catalog} {action : RegistryAction} {v : PolicySnapshot}
    (h : RegistryStep c (.policy action v) d) : PolicyChecked c action v := by
  obtain ⟨b, hsame, hvalid⟩ := h.validated
  have hchecked := policyChecked_of_ok hvalid
  exact ⟨by rw [← hsame.policies]; exact hchecked.registered,
    by rw [← hsame.policies]; exact hchecked.raised⟩

theorem RegistryStep.deviceChecked {c d : Catalog} {action : RegistryAction} {v : DeviceSnapshot}
    (h : RegistryStep c (.device action v) d) : DeviceChecked c action v := by
  obtain ⟨b, hsame, hvalid⟩ := h.validated
  have hchecked := deviceChecked_of_ok hvalid
  have hduplicate : ∀ kind fingerprint, duplicateDevice c v.deviceId kind fingerprint =
      duplicateDevice b v.deviceId kind fingerprint := fun _ _ => by
    rw [duplicateDevice, duplicateDevice, hsame.devices]
  exact ⟨hchecked.status, by rw [← hsame.deviceAt_eq]; exact hchecked.registered,
    by rw [← hsame.deviceAt_eq]; exact hchecked.kept, hchecked.evidence, hchecked.ownKind,
    by rw [hduplicate]; exact hchecked.unclaimed⟩

/-! ### What a change writes -/

theorem registryInteger_eq_ok {value n : Nat} :
    registryInteger value = .ok n ↔ value ≤ i64Max ∧ n = value := by
  unfold registryInteger
  rw [← sqlInteger_eq_some]
  split
  · rename_i v hv
    rw [hv, Option.some.injEq, Except.ok.injEq]
  · rename_i hv
    rw [hv]
    exact ⟨nofun, nofun⟩

theorem constraint_eq_ok {α : Type} {message : String} {x : Option α} {a : α} :
    constraint message x = .ok a ↔ x = some a := by
  cases x <;> simp [constraint]

/-- The site intervals an action leaves. -/
def siteIntervals (t : Table deviceSiteSchema) (action : RegistryAction) (v : DeviceSnapshot)
    (time : Nat) : Option (Table deviceSiteSchema) :=
  let sites := if action = .move then departDevice t v.deviceId time else t
  match v.currentSiteId with
  | some site =>
      if action = .register ∨ action = .move then sites.insert? ⟨v.deviceId, site, time, none⟩
      else some sites
  | none => some sites

/-- The policy a change writes under an identifier. -/
def RegistryChange.policyUnder (id : String) : RegistryChange → Option PolicySnapshot
  | .policy _ v => if v.policyId = id then some v else none
  | _ => none

/-- The device a change writes under an identifier. -/
def RegistryChange.deviceUnder (id : String) : RegistryChange → Option DeviceSnapshot
  | .device _ v => if v.deviceId = id then some v else none
  | _ => none

/-- The site intervals a change leaves. -/
def RegistryChange.sitesAfter (t : Table deviceSiteSchema) (time : Nat) :
    RegistryChange → Option (Table deviceSiteSchema)
  | .device action v => siteIntervals t action v time
  | _ => some t

/-- What a change does to the policies, the devices and the site intervals. -/
structure Writes (c : Catalog) (change : RegistryChange) (time : Nat) (d : Catalog) : Prop where
  policies : ∀ id, d.policies.get? id = (change.policyUnder id).or (c.policies.get? id)
  devices : ∀ id, deviceAt d id = (change.deviceUnder id).or (deviceAt c id)
  sites : change.sitesAfter c.deviceSiteHistory time = some d.deviceSiteHistory

theorem get?_upsertPolicy (t : Table (Schema.ofKey PolicySnapshot.policyId)) (v : PolicySnapshot)
    (id : String) :
    (t.upsert v fun r => { v with policyId := r.policyId }).get? id =
      (if v.policyId = id then some v else none).or (t.get? id) := by
  rw [Table.get?_upsert]
  dsimp only
  split
  · rename_i hid
    cases hget : t.get? id with
    | none => rfl
    | some r =>
      have hkey : r.policyId = v.policyId := (Table.key_of_get? hget).trans hid.symm
      simp [hkey]
  · rfl

theorem deviceAt_upsert {t u : Table deviceSchema} {v : DeviceSnapshot}
    (h : upsertDevice t v = some u) (id : String) :
    (u.get? id).map DeviceRow.snapshot =
      (if v.deviceId = id then some v else none).or ((t.get? id).map DeviceRow.snapshot) := by
  rw [Table.get?_upsert? h]
  change Option.map DeviceRow.snapshot (if v.deviceId = id then _ else _) = _
  split
  · rename_i hid
    cases hget : t.get? id with
    | none => rfl
    | some r =>
      have hkey : r.snapshot.deviceId = v.deviceId := (Table.key_of_get? hget).trans hid.symm
      simp [hkey]
  · rfl

/-- A check-in writes its own columns of a device and keeps the snapshot. -/
theorem deviceAt_checkIn (tx : Catalog) (v : DeviceCheckIn) (time : Nat) (id : String) :
    deviceAt (applyDeviceCheckIn tx v time) id = deviceAt tx id := by
  have hdevices : (applyDeviceCheckIn tx v time).devices = tx.devices.modify
      (fun r => r.snapshot.deviceId = v.deviceId)
      (fun r => { r with
        lastCheckinTimeUtcMs := some time
        lastFingerprintMatchTimeUtcMs :=
          if v.fingerprintStatus = "match" then some time else r.lastFingerprintMatchTimeUtcMs
        lastFingerprintStatus := some v.fingerprintStatus }) := rfl
  rw [deviceAt, hdevices, Table.get?_modify, deviceAt]
  cases tx.devices.get? id with
  | none => rfl
  | some r =>
    rw [Option.map_some, Option.map_some, Option.map_some]
    split <;> rfl

theorem applyDevice_writes {tx d : Catalog} {action : RegistryAction} {v : DeviceSnapshot}
    {time : Nat} (h : applyDevice tx action v time = .ok d) :
    Writes tx (.device action v) time d := by
  obtain ⟨devices, hdevices, h⟩ := bind_eq_ok.mp h
  have hat := deviceAt_upsert (constraint_eq_ok.mp hdevices)
  have hsites : RegistryChange.sitesAfter tx.deviceSiteHistory time (.device action v) =
      siteIntervals tx.deviceSiteHistory action v time := rfl
  rw [siteIntervals] at hsites
  cases hsite : v.currentSiteId with
  | none =>
    simp only [hsite] at h hsites
    cases h
    exact ⟨fun _ => rfl, hat, hsites⟩
  | some site =>
    simp only [hsite] at h hsites
    by_cases haction : action = .register ∨ action = .move
    · rw [if_pos haction] at h hsites
      obtain ⟨sites, hinsert, h⟩ := bind_eq_ok.mp h
      cases h
      exact ⟨fun _ => rfl, hat, hsites.trans (constraint_eq_ok.mp hinsert)⟩
    · rw [if_neg haction] at h hsites
      cases h
      exact ⟨fun _ => rfl, hat, hsites⟩

theorem apply_writes {tx d : Catalog} {change : RegistryChange} {host kind : String} {time : Nat}
    (h : apply tx change host time = .ok (kind, d)) : Writes tx change time d := by
  cases change with
  | policy action v =>
    obtain ⟨k, -, h⟩ := bind_eq_ok.mp h
    obtain ⟨version, hversion, h⟩ := bind_eq_ok.mp h
    obtain ⟨-, rfl⟩ := registryInteger_eq_ok.mp hversion
    cases h
    exact ⟨get?_upsertPolicy tx.policies v, fun _ => rfl, rfl⟩
  | device action v =>
    obtain ⟨k, -, h⟩ := bind_eq_ok.mp h
    obtain ⟨e, he, h⟩ := bind_eq_ok.mp h
    cases h
    exact applyDevice_writes he
  | site action v =>
    obtain ⟨k, -, h⟩ := bind_eq_ok.mp h
    cases h
    exact ⟨fun _ => rfl, fun _ => rfl, rfl⟩
  | collection action v =>
    obtain ⟨k, -, h⟩ := bind_eq_ok.mp h
    cases h
    exact ⟨fun _ => rfl, fun _ => rfl, rfl⟩
  | archiveRoot action v =>
    obtain ⟨k, -, h⟩ := bind_eq_ok.mp h
    obtain ⟨bytes, -, h⟩ := bind_eq_ok.mp h
    obtain ⟨roots, -, h⟩ := bind_eq_ok.mp h
    cases h
    exact ⟨fun _ => rfl, fun _ => rfl, rfl⟩
  | location action v =>
    obtain ⟨k, -, h⟩ := bind_eq_ok.mp h
    obtain ⟨e, he, h⟩ := bind_eq_ok.mp h
    cases h
    obtain ⟨bytes, -, he⟩ := bind_eq_ok.mp he
    split at he
    · cases he
      exact ⟨fun _ => rfl, fun _ => rfl, rfl⟩
    · cases he
  | riskDomain action v =>
    obtain ⟨k, -, h⟩ := bind_eq_ok.mp h
    cases h
    exact ⟨fun _ => rfl, fun _ => rfl, rfl⟩
  | assignRisk v =>
    obtain ⟨assigned, -, h⟩ := bind_eq_ok.mp h
    cases h
    exact ⟨fun _ => rfl, fun _ => rfl, rfl⟩
  | unassignRisk v =>
    cases h
    exact ⟨fun _ => rfl, fun _ => rfl, rfl⟩
  | deviceCheckIn v =>
    cases h
    exact ⟨fun _ => rfl, deviceAt_checkIn tx v time, rfl⟩
  | deviceMount v =>
    obtain ⟨e, he, h⟩ := bind_eq_ok.mp h
    cases h
    unfold applyDeviceMount at he
    split at he
    · cases he
    · obtain ⟨mounts, -, he⟩ := bind_eq_ok.mp he
      cases he
      exact ⟨fun _ => rfl, fun _ => rfl, rfl⟩

/-- Only a device moves. -/
theorem RegistryStep.not_move {c d : Catalog} {v : PolicySnapshot} :
    ¬ RegistryStep c (.policy .move v) d := by
  rintro ⟨hostId, time, b, -, hrec⟩
  obtain ⟨-, kind, e, happly, -⟩ := recordChange_eq_ok.mp hrec
  obtain ⟨k, hk, -⟩ := bind_eq_ok.mp happly
  rw [registryKind, if_neg (by decide)] at hk
  cases hk

/-- **What one change of a run does to the policies, the devices and the site intervals.** -/
theorem RegistryStep.writes {c d : Catalog} {change : RegistryChange} (h : RegistryStep c change d) :
    ∃ time, Writes c change time d := by
  obtain ⟨hostId, time, b, hsame, hrec⟩ := h
  obtain ⟨-, kind, e, happly, rfl⟩ := recordChange_eq_ok.mp hrec
  have hwrites := apply_writes happly
  refine ⟨time, ?_, ?_, ?_⟩
  · rw [← hsame.policies]
    exact hwrites.policies
  · rw [← hsame.deviceAt_eq]
    exact hwrites.devices
  · rw [← hsame.deviceSiteHistory]
    exact hwrites.sites

end ArchiveLedger
