import ArchiveLedger.Projection.Candidates
import ArchiveLedger.Registry.Applicability
import ArchiveLedger.Registry.DeviceSites

/-!
# The two registries

The permanent history and the catalog are given the same changes.  Both run one validation,
but the catalog's constraints refuse a change before it is committed, and the projection's only
after it was appended for good: from then on every record fails at the projection first.
`agree_iff_meets` says when the two go along together through a whole run: where the record
store takes the applicable changes and no others.
-/

namespace ArchiveLedger

open Relational Outcome Transition

/-! ### A change given to both -/

/-- A change, the host it is recorded on, and the record the store would make of it, whose time
is also the time the catalog is given. -/
structure Recording where
  change : RegistryChange
  hostId : String
  record : VerifiedV2Record

abbrev Recording.timeUtcMs (e : Recording) : Nat := e.record.record.envelope.timeUtcMs

/-- Both registries.  A blocked projection has a record before it that cannot be projected. -/
structure Registries where
  db : Projection
  blocked : Bool
  catalog : Catalog

/-- An empty archive and an empty catalog. -/
def Registries.create (archiveMeta : ProjectionMeta) : Registries where
  db := .empty archiveMeta
  blocked := false
  catalog := .create archiveMeta.archiveId archiveMeta.archiveDisplayName

namespace Registries

variable (R : V2RegistryRuntime)

/-- The archive after `V2Registry::record`, and whether it returned a result. -/
def recordPermanent (s : Registries) (e : Recording) : Bool × Registries :=
  if s.blocked then (false, s)
  else
    match R.record s.db e.change e.hostId with
    | .appended item =>
        match s.db.projectRegistryItem R.toProjectionRuntime item e.record with
        | .ok db => (true, { s with db := db })
        | .error _ => (false, { s with blocked := true })
    | _ => (false, s)

/-- The catalog after `record_batch` of one change, and whether it returned a result. -/
def recordCatalog (c : Catalog) (e : Recording) : Bool × Catalog :=
  match recordBatch c [e.change] e.hostId e.timeUtcMs with
  | .ok (_, d) => (true, d)
  | .error _ => (false, c)

def next (s : Registries) (e : Recording) : Registries :=
  { (s.recordPermanent R e).2 with catalog := (recordCatalog s.catalog e).2 }

/-- Both took the change or neither did, everything appended is projected, and the registry
tables are equal. -/
structure Agrees (s : Registries) (e : Recording) (t : Registries) : Prop where
  accepted : (s.recordPermanent R e).1 = (recordCatalog s.catalog e).1
  projected : t.blocked = false
  equal : SameRegistry t.db.registryTables t.catalog

/-- The record store takes a valid change exactly when it is applicable. -/
def Meets (s : Registries) (e : Recording) : Prop :=
  validateChangeOn s.catalog e.change = .ok () → ∀ item, R.item e.change e.hostId = some item →
    (R.appends item = true ↔ e.timeUtcMs ≤ i64Max ∧ Applicable s.catalog e.hostId e.timeUtcMs e.change)

/-! ### One change -/

/-- What holds of the registries as long as they agree. -/
structure Together (s : Registries) : Prop where
  projected : s.blocked = false
  equal : SameRegistry s.db.registryTables s.catalog
  known : DevicesKnown s.catalog

theorem sameRegistry_of_withRegistry (c d : Catalog) : SameRegistry d (c.withRegistry d) :=
  ⟨rfl, rfl, rfl, rfl, rfl, rfl, rfl, rfl, rfl, rfl⟩

theorem devicesKnown_of_same {c d : Catalog} (hsame : SameRegistry c d) (h : DevicesKnown c) :
    DevicesKnown d := by
  have hexists : ∀ id, entityExists d .devices id = entityExists c .devices id := fun id => by
    rw [entityExists_devices, entityExists_devices, hsame.deviceAt_eq]
  refine ⟨fun r hr => ?_, fun r hr => ?_⟩
  · rw [hsame.archiveRoots] at hr
    rw [hexists]
    exact h.roots r hr
  · rw [hsame.deviceSiteHistory] at hr
    rw [hexists]
    exact h.stays r hr

/-- The catalog commits what is valid and applied. -/
theorem recordCatalog_of_applied {c d : Catalog} {e : Recording} {kind : String}
    (htime : e.timeUtcMs ≤ i64Max) (hvalid : validateChangeOn c e.change = .ok ())
    (h : apply c e.change e.hostId e.timeUtcMs = .ok (kind, d)) :
    ∃ d', recordCatalog c e = (true, d') ∧ SameRegistry d d' := by
  have hchange := recordChange_eq_ok.mpr ⟨hvalid, kind, d, h, rfl⟩
  have htx : commitAll (recordChange e.hostId e.timeUtcMs) c [e.change] = .ok { d with
      history := d.history ++ [registryHistory kind e.change e.hostId e.timeUtcMs] } :=
    (commitAll_cons _).mpr ⟨_, hchange, rfl⟩
  obtain ⟨commit, d', hbatch, hsame⟩ : ∃ commit d',
      recordBatch c [e.change] e.hostId e.timeUtcMs = .ok (commit, d') ∧ SameRegistry d d' :=
    ⟨_, _, bind_eq_ok.mpr ⟨e.timeUtcMs, registryInteger_eq_ok.mpr ⟨htime, rfl⟩,
      bind_eq_ok.mpr ⟨_, htx, rfl⟩⟩, ⟨rfl, rfl, rfl, rfl, rfl, rfl, rfl, rfl, rfl, rfl⟩⟩
  refine ⟨d', ?_, hsame⟩
  rw [recordCatalog, hbatch]

/-- What it refuses leaves it as it was. -/
theorem recordCatalog_cases (c : Catalog) (e : Recording) :
    recordCatalog c e = (false, c) ∨ e.timeUtcMs ≤ i64Max ∧ validateChangeOn c e.change = .ok () ∧
      ∃ kind d d', apply c e.change e.hostId e.timeUtcMs = .ok (kind, d) ∧
        recordCatalog c e = (true, d') ∧ SameRegistry d d' := by
  cases hbatch : recordBatch c [e.change] e.hostId e.timeUtcMs with
  | error err =>
    left
    rw [recordCatalog, hbatch]
  | ok r =>
    right
    obtain ⟨commit, d⟩ := r
    obtain ⟨-, htime, tx, htx, -⟩ := recordBatch_eq_ok hbatch
    obtain ⟨e', he, -⟩ := (commitAll_cons _).mp htx
    obtain ⟨hvalid, kind, applied, happly, -⟩ := recordChange_eq_ok.mp he
    obtain ⟨d', hd', hsame⟩ := recordCatalog_of_applied htime hvalid happly
    exact ⟨htime, hvalid, kind, applied, d', happly, hd', hsame⟩

/-- A change without an item is a move of something that does not move. -/
theorem not_applied_of_eventKind {c : Catalog} {change : RegistryChange} {host : String} {time : Nat}
    (h : change.eventKind = none) : ¬ ∃ kind d, apply c change host time = .ok (kind, d) := by
  have hkind : ∀ {entity : String} {action : RegistryAction}, lifecycleEvent entity action = none →
      ∀ kind, registryKind entity action ≠ .ok kind := by
    intro entity action hnone kind hk
    cases action with
    | move =>
      rw [lifecycleEvent] at hnone
      rw [registryKind] at hk
      split at hk
      · rename_i hdevice
        rw [if_pos hdevice] at hnone
        cases hnone
      · cases hk
    | _ => cases hnone
  rintro ⟨kind, d, happly⟩
  cases change with
  | site action v | policy action v | collection action v | device action v | archiveRoot action v
  | location action v | riskDomain action v =>
    obtain ⟨k, hk, -⟩ := bind_eq_ok.mp happly
    exact hkind h k hk
  | _ => cases h

variable {R}

/-- **What the catalog commits, the projection writes.** -/
theorem project_of_apply {s : Registries} {e : Recording} {item : Json} {kind : String} {d : Catalog}
    (hs : s.Together) (hreads : R.Reads e.change) (hitem : R.item e.change e.hostId = some item)
    (htime : e.timeUtcMs ≤ i64Max) (hvalid : validateChangeOn s.catalog e.change = .ok ())
    (h : apply s.catalog e.change e.hostId e.timeUtcMs = .ok (kind, d)) :
    ∃ db, s.db.projectRegistryItem R.toProjectionRuntime item e.record = .ok db ∧
      SameRegistry db.registryTables d := by
  rw [← hs.equal.withRegistry_eq, apply_withRegistry] at h
  cases happly : apply s.db.registryTables e.change e.hostId e.timeUtcMs with
  | error err =>
    rw [happly] at h
    cases h
  | ok r =>
    obtain ⟨k, d'⟩ := r
    rw [happly] at h
    cases h
    rw [hs.equal.validate_eq] at hvalid
    have hplaced : RootsPlaced s.db.registryTables := (devicesKnown_of_same hs.equal.symm hs.known).roots
    exact ⟨_, Projection.projectRegistryItem_of_apply hitem hreads htime hplaced hvalid happly,
      (sameRegistry_withRegistry s.db d').trans (sameRegistry_of_withRegistry s.catalog d')⟩

/-- What `V2Registry::record` does while the projection is not blocked. -/
theorem recordPermanent_eq {s : Registries} (hs : s.blocked = false) (e : Recording) :
    s.recordPermanent R e = match R.record s.db e.change e.hostId with
      | .appended item =>
          match s.db.projectRegistryItem R.toProjectionRuntime item e.record with
          | .ok db => (true, { s with db := db })
          | .error _ => (false, { s with blocked := true })
      | _ => (false, s) := by
  rw [recordPermanent, hs]
  rfl

theorem record_valid {db : Projection} {change : RegistryChange} {host : String}
    (h : validateChangeOn db.registryTables change = .ok ()) : R.record db change host =
      match R.item change host with
      | none => .panicked
      | some item => if R.appends item then .appended item else .unappended := by
  unfold V2RegistryRuntime.record
  split
  · rename_i e he
    rw [h] at he
    cases he
  · rfl

/-- Neither takes the change. -/
theorem agrees_of_refused {s : Registries} {e : Recording} (hs : s.Together)
    (hpermanent : s.recordPermanent R e = (false, s)) (hcatalog : recordCatalog s.catalog e = (false, s.catalog)) :
    s.Agrees R e (s.next R e) := by
  refine ⟨by rw [hpermanent, hcatalog], ?_, ?_⟩
  · rw [next, hpermanent]
    exact hs.projected
  · rw [next, hpermanent, hcatalog]
    exact hs.equal

theorem accepted_iff {s : Registries} {e : Recording} {event : String} (hs : s.Together)
    (hvalid : validateChangeOn s.catalog e.change = .ok ()) (hevent : e.change.eventKind = some event) :
    (recordCatalog s.catalog e).1 = true ↔
      e.timeUtcMs ≤ i64Max ∧ Applicable s.catalog e.hostId e.timeUtcMs e.change := by
  rw [← exists_apply_iff hs.known hvalid hevent]
  constructor
  · intro h
    rcases recordCatalog_cases s.catalog e with hrefused | ⟨htime, -, kind, d, -, happly, -⟩
    · rw [hrefused] at h
      cases h
    · exact ⟨htime, kind, d, happly⟩
  · rintro ⟨htime, kind, d, happly⟩
    obtain ⟨d', hd', -⟩ := recordCatalog_of_applied htime hvalid happly
    rw [hd']

/-- A change that both take. -/
theorem agrees_of_taken {s : Registries} {e : Recording} {item : Json} (hs : s.Together)
    (hreads : R.Reads e.change) (hitem : R.item e.change e.hostId = some item)
    (hvalid : validateChangeOn s.catalog e.change = .ok ()) (happends : R.appends item = true)
    (haccepted : (recordCatalog s.catalog e).1 = true) : s.Agrees R e (s.next R e) := by
  rcases recordCatalog_cases s.catalog e with hrefused | ⟨htime, -, kind, d, d', happly, hd', hsame⟩
  · rw [hrefused] at haccepted
    cases haccepted
  obtain ⟨db, hdb, hequal⟩ := project_of_apply hs hreads hitem htime hvalid happly
  have hpermanent : s.recordPermanent R e = (true, { s with db := db }) := by
    rw [recordPermanent_eq hs.projected, record_valid (hs.equal.validate_eq _ ▸ hvalid), hitem]
    simp only [happends, if_true, hdb]
  refine ⟨by rw [hpermanent, hd'], ?_, ?_⟩
  · rw [next, hpermanent]
    exact hs.projected
  · rw [next, hpermanent, hd']
    exact hequal.trans hsame

/-- **One change.** -/
theorem agrees_iff {s : Registries} {e : Recording} (hs : s.Together) (hreads : R.Reads e.change) :
    s.Agrees R e (s.next R e) ↔ s.Meets R e := by
  by_cases hvalid : validateChangeOn s.catalog e.change = .ok ()
  swap
  · have hcatalog : recordCatalog s.catalog e = (false, s.catalog) := by
      rcases recordCatalog_cases s.catalog e with hrefused | ⟨-, hok, -⟩
      · exact hrefused
      · exact absurd hok hvalid
    have hpermanent : s.recordPermanent R e = (false, s) := by
      rw [recordPermanent_eq hs.projected, V2RegistryRuntime.record]
      cases hv : validateChangeOn s.db.registryTables e.change with
      | error err => rfl
      | ok u => exact absurd ((hs.equal.validate_eq _).trans hv) hvalid
    exact iff_of_true (agrees_of_refused hs hpermanent hcatalog) fun hok => absurd hok hvalid
  have hvalid' : validateChangeOn s.db.registryTables e.change = .ok () :=
    (hs.equal.validate_eq e.change).symm.trans hvalid
  have hrecord : R.record s.db e.change e.hostId = match R.item e.change e.hostId with
      | none => .panicked
      | some item => if R.appends item then .appended item else .unappended := record_valid hvalid'
  cases hitem : R.item e.change e.hostId with
  | none =>
    have hevent : e.change.eventKind = none := Option.map_eq_none_iff.mp hitem
    have hcatalog : recordCatalog s.catalog e = (false, s.catalog) := by
      rcases recordCatalog_cases s.catalog e with hrefused | ⟨-, -, kind, d, -, happly, -⟩
      · exact hrefused
      · exact absurd ⟨kind, d, happly⟩ (not_applied_of_eventKind hevent)
    have hpermanent : s.recordPermanent R e = (false, s) := by
      rw [recordPermanent_eq hs.projected, hrecord, hitem]
    refine iff_of_true (agrees_of_refused hs hpermanent hcatalog) fun _ item h => ?_
    rw [hitem] at h
    cases h
  | some item =>
    obtain ⟨event, hevent, -⟩ := Option.map_eq_some_iff.mp hitem
    have haccepted := accepted_iff hs hvalid hevent
    have hmeets : s.Meets R e ↔ (R.appends item = true ↔ (recordCatalog s.catalog e).1 = true) := by
      rw [haccepted]
      refine ⟨fun h => h hvalid item hitem, fun h _ item' hitem' => ?_⟩
      rw [hitem, Option.some.injEq] at hitem'
      exact hitem' ▸ h
    rw [hmeets]
    cases happends : R.appends item with
    | false =>
      have hpermanent : s.recordPermanent R e = (false, s) := by
        rw [recordPermanent_eq hs.projected, hrecord, hitem]
        simp only [happends, Bool.false_eq_true, if_false]
      constructor
      · intro hagrees
        rw [← hagrees.accepted, hpermanent]
      · intro hboth
        rcases recordCatalog_cases s.catalog e with hrefused | ⟨-, -, kind, d, d', -, htaken, -⟩
        · exact agrees_of_refused hs hpermanent hrefused
        · rw [htaken] at hboth
          exact absurd (hboth.mpr rfl) Bool.false_ne_true
    | true =>
      constructor
      · intro hagrees
        refine iff_of_true rfl ?_
        rw [← hagrees.accepted]
        have hprojected := hagrees.projected
        have hpermanent := recordPermanent_eq (R := R) hs.projected e
        rw [hrecord, hitem] at hpermanent
        simp only [happends, if_true] at hpermanent
        cases hproject : s.db.projectRegistryItem R.toProjectionRuntime item e.record with
        | ok db => rw [hpermanent, hproject]
        | error err =>
          rw [next, hpermanent, hproject] at hprojected
          cases hprojected
      · intro hboth
        exact agrees_of_taken hs hreads hitem hvalid happends (hboth.mp rfl)

/-! ### Runs -/

theorem together_create (archiveMeta : ProjectionMeta) : (create archiveMeta).Together :=
  ⟨rfl, ⟨rfl, rfl, rfl, rfl, rfl, rfl, rfl, rfl, rfl, rfl⟩,
    ⟨fun _ h => absurd h List.not_mem_nil, fun _ h => absurd h List.not_mem_nil⟩⟩

theorem together_next {s : Registries} {e : Recording} (hs : s.Together)
    (hagrees : s.Agrees R e (s.next R e)) : (s.next R e).Together := by
  refine ⟨hagrees.projected, hagrees.equal, ?_⟩
  show DevicesKnown (recordCatalog s.catalog e).2
  rcases recordCatalog_cases s.catalog e with hrefused | ⟨-, hvalid, kind, d, d', happly, htaken, hsame⟩
  · rw [hrefused]
    exact hs.known
  · rw [htaken]
    exact devicesKnown_of_same hsame (devicesKnown_apply hs.known hvalid happly)

/-- **The registries agree through a run exactly when the record store takes the applicable
changes and no others.** -/
theorem agree_iff_meets (archiveMeta : ProjectionMeta) (p : List (Recording × Registries))
    (hrun : Path (fun s e t => t = next R s e) (create archiveMeta) p)
    (hreads : ∀ e ∈ p, R.Reads e.1.change) :
    Path (fun s e t => s.Agrees R e t) (create archiveMeta) p ↔
      Path (fun s e _ => s.Meets R e) (create archiveMeta) p := by
  have hstep : ∀ s e t, Together s → t = next R s e ∧ R.Reads e.change → (s.Agrees R e t ↔ s.Meets R e) := by
    rintro s e t hs ⟨rfl, hread⟩
    exact agrees_iff hs hread
  have hkeep : ∀ s e t, Together s → t = next R s e ∧ R.Reads e.change → s.Agrees R e t → Together t := by
    rintro s e t hs ⟨rfl, -⟩ hagrees
    exact together_next hs hagrees
  exact Path.congr_of_invariant hstep hkeep (together_create archiveMeta)
    (hrun.and (path_iff_forall.mpr hreads))

end Registries

/-! ### A mount identifier given twice -/

namespace Sample

def optionalText (value : Option String) : Json := (value.map Json.str).getD .null

/-- A required field of a snapshot. -/
def textField (value : Json) (key : String) : Except String String :=
  match optionalString value key with
  | some text => .ok text
  | none => .error "missing field"

def deviceFields (v : DeviceSnapshot) : List (String × Json) :=
  [("device_id", .str v.deviceId), ("display_name", .str v.displayName), ("device_kind", .str v.deviceKind),
    ("serial_hint", optionalText v.serialHint), ("hardware_fingerprint", optionalText v.hardwareFingerprint),
    ("fingerprint_kind", optionalText v.fingerprintKind), ("identity_state", .str v.identityState),
    ("owner", optionalText v.owner), ("status", .str v.status),
    ("current_site_id", optionalText v.currentSiteId), ("expected_availability", .str v.expectedAvailability)]

def readDevice (value : Json) : Except String DeviceSnapshot := do
  .ok ⟨← textField value "device_id", ← textField value "display_name", ← textField value "device_kind",
    optionalString value "serial_hint", optionalString value "hardware_fingerprint",
    optionalString value "fingerprint_kind", ← textField value "identity_state",
    optionalString value "owner", ← textField value "status", optionalString value "current_site_id",
    ← textField value "expected_availability"⟩

def mountFields (v : DeviceMount) : List (String × Json) :=
  [("mount_id", .str v.mountId), ("device_id", .str v.deviceId),
    ("archive_root_id", optionalText v.archiveRootId), ("mount_root_uri", .str v.mountRootUri),
    ("status", .str v.status), ("fingerprint_status", .str v.fingerprintStatus)]

def readDeviceMount (value : Json) : Except String DeviceMount := do
  .ok ⟨← textField value "mount_id", ← textField value "device_id",
    optionalString value "archive_root_id", ← textField value "mount_root_uri",
    ← textField value "status", ← textField value "fingerprint_status"⟩

/-- Devices and mounts are written and read, and the record store takes every item. -/
def registryRuntime : V2RegistryRuntime :=
  { projectionRuntime with
    readDevice := readDevice
    readDeviceMount := readDeviceMount
    payload := fun
      | .device _ v => deviceFields v
      | .deviceMount v => mountFields v
      | _ => []
    appends := fun _ => true }

def recording (n : Nat) (change : RegistryChange) : Recording where
  change := change
  hostId := "host"
  record := chunkRecord ⟨n, 1, n, 0, []⟩

/-- The mount of the disk at `/mnt/disk`, always under one identifier. -/
def diskMount (status : String) : DeviceMount where
  mountId := "mount_disk"
  deviceId := "disk"
  archiveRootId := none
  mountRootUri := "file:///mnt/disk"
  status := status
  fingerprintStatus := "unavailable"

/-- The disk is registered, mounted and unmounted. -/
def mountRecordings : List Recording :=
  [recording 1 (.device .register (sampleDevice "active" none)), recording 2 (.deviceMount (diskMount "mounted")),
    recording 3 (.deviceMount (diskMount "unmounted"))]

/-- The path a list of changes takes. -/
def registryPath (s : Registries) : List Recording → List (Recording × Registries)
  | [] => []
  | e :: rest => (e, s.next registryRuntime e) :: registryPath (s.next registryRuntime e) rest

theorem path_registryPath (s : Registries) (recordings : List Recording) :
    Path (fun s e t => t = s.next registryRuntime e) s (registryPath s recordings) := by
  induction recordings generalizing s with
  | nil => trivial
  | cons e rest ih => exact ⟨rfl, ih (s.next registryRuntime e)⟩

theorem final_registryPath (s : Registries) (recordings : List Recording) :
    final s (registryPath s recordings) = recordings.foldl (Registries.next registryRuntime) s := by
  induction recordings generalizing s with
  | nil => rfl
  | cons e rest ih => exact ih (s.next registryRuntime e)

theorem reads_registryPath {s : Registries} {recordings : List Recording}
    (h : ∀ e ∈ recordings, registryRuntime.Reads e.change) :
    ∀ e ∈ registryPath s recordings, registryRuntime.Reads e.1.change := by
  induction recordings generalizing s with
  | nil => exact fun e he => absurd he List.not_mem_nil
  | cons e rest ih =>
    intro x hx
    rcases List.mem_cons.mp hx with rfl | hx
    · exact h e List.mem_cons_self
    · exact ih (fun e he => h e (List.mem_cons_of_mem _ he)) x hx

theorem reads_mountRecordings : ∀ e ∈ mountRecordings, registryRuntime.Reads e.change := by
  intro e he
  simp only [mountRecordings, List.mem_cons, List.not_mem_nil, or_false] at he
  rcases he with rfl | rfl | rfl <;> rfl

theorem unblocked_of_agrees {R : V2RegistryRuntime} {s : Registries} {p : List (Recording × Registries)}
    (hs : s.blocked = false) (h : Path (fun s e t => s.Agrees R e t) s p) : (final s p).blocked = false :=
  h.invariant (P := fun s => s.blocked = false) (fun _ _ _ _ hagrees => hagrees.projected) hs

/-- The second mount is appended, and nothing is projected after it. -/
theorem remounted_blocks : ∃ p : List (Recording × Registries),
    Path (fun s e t => t = Registries.next registryRuntime s e) (Registries.create projectionMeta) p ∧
    (∀ e ∈ p, registryRuntime.Reads e.1.change) ∧
    ¬ Path (fun s e t => Registries.Agrees registryRuntime s e t) (Registries.create projectionMeta) p := by
  refine ⟨registryPath (.create projectionMeta) mountRecordings, path_registryPath _ _,
    reads_registryPath reads_mountRecordings, fun hagrees => ?_⟩
  have hblocked : (mountRecordings.foldl (Registries.next registryRuntime) (.create projectionMeta)).blocked
      = true := by
    decide +kernel
  rw [← final_registryPath, unblocked_of_agrees rfl hagrees] at hblocked
  cases hblocked

/-- The first mount agrees. -/
theorem mounted_agrees : Path (fun s e t => Registries.Agrees registryRuntime s e t)
    (Registries.create projectionMeta) (registryPath (.create projectionMeta) (mountRecordings.take 2)) := by
  refine (Registries.agree_iff_meets projectionMeta _ (path_registryPath _ _) (reads_registryPath fun e he =>
    reads_mountRecordings e (List.mem_of_mem_take he))).mpr ⟨?_, ?_, trivial⟩
  · intro _ item _
    refine iff_of_true rfl ⟨by decide +kernel, fun r hr => absurd hr List.not_mem_nil, nofun⟩
  · intro _ item _
    refine iff_of_true rfl ⟨by decide +kernel, ?_, ?_⟩
    · decide +kernel
    · decide +kernel

end Sample

end ArchiveLedger
