import ArchiveLedger.Projection.Schema

/-!
# Projecting content, annex entries and verification failures

The functions of `compact_projection.rs` that write Files, their locations,
Copies and checks.  An update of one row by its key is a `modify?` where it may
violate a unique index, and a `modify` where it cannot.
-/

namespace ArchiveLedger

open Relational Outcome Transition

/-- The low bytes of a number, the least significant first. -/
def leBytes (width n : Nat) : Bytes := (beBytes width n).reverse

/-! ### What an upsert makes of a row -/

/-- What `ON CONFLICT(canonical_id) DO UPDATE` makes of a File. -/
def FileObjectRow.updated (old excluded : FileObjectRow) : FileObjectRow :=
  { old with
    content := excluded.content
    external := excluded.external.or old.external
    identityState := excluded.identityState
    active := true
    modifiedTime := excluded.modifiedTime
    observedSize := excluded.observedSize
    lastRecord := excluded.lastRecord
    removedRecord := none }

/-- What `ON CONFLICT(file_id,location_id) DO UPDATE` makes of a file location. -/
def FileLocationRow.updated (old excluded : FileLocationRow)
    (preserveModifiedTime : Bool) : FileLocationRow :=
  { old with
    representation := excluded.representation
    content := excluded.content
    external := excluded.external.or old.external
    presence := excluded.presence
    lastRecord := excluded.lastRecord
    seenTime := excluded.seenTime
    observedSize := excluded.observedSize
    modifiedTime := if preserveModifiedTime then old.modifiedTime else excluded.modifiedTime }

/-- What the upsert of annex content makes of a file location: a presence that is not
known leaves the old one. -/
def FileLocationRow.updatedContent (old excluded : FileLocationRow)
    (presence : Option Bool) : FileLocationRow :=
  { old with
    content := excluded.content
    external := excluded.external
    lastRecord := excluded.lastRecord
    presence := presence.getD old.presence
    seenTime := if presence.isNone then old.seenTime else excluded.seenTime }

/-- What `ON CONFLICT(canonical_id) DO UPDATE` makes of a Copy: nothing for a claim of
source metadata. -/
def CopyBindingRow.updated (old excluded : CopyBindingRow) : CopyBindingRow :=
  if excluded.basis = .sourceMetadata then old
  else { old with
    content := excluded.content
    external := excluded.external.or old.external
    basis := excluded.basis
    state := excluded.state
    stateRecord := excluded.stateRecord
    latestPresence := excluded.latestPresence.or old.latestPresence
    latestIntegrity := excluded.latestIntegrity.or old.latestIntegrity }

@[simp] theorem CopyBindingRow.updated_canonicalId (old excluded : CopyBindingRow) :
    (old.updated excluded).canonicalId = old.canonicalId := by
  unfold CopyBindingRow.updated
  split <;> rfl

namespace Projection

variable (R : ProjectionRuntime) (db : Projection)

/-! ### Rows a statement refers to -/

/-- The row of a name exists. -/
def named {κ ρ : Type} [DecidableEq κ] {S : Schema κ ρ} (t : Table S) (name : κ) :
    ProjectionResult Unit := require (t.get? name).isSome .sqlite

def recordKey (record : VerifiedV2Record) : ProjectionResult String := do
  named db.records record.record.envelope.recordId
  .ok record.record.envelope.recordId

/-- The File of a file location. -/
def fileOf (binding : BindingKey) : Option FileObjectRow :=
  (db.fileLocations.get? binding).bind fun location => db.fileObjects.get? location.fileId

/-! ### Content -/

def checksum (algorithm hex : String) : ProjectionResult Checksum := do
  let digest ← hexBytes hex
  require (¬ ((algorithm = "sha256" ∧ digest.length ≠ 32) ∨ (algorithm = "sha512" ∧ digest.length ≠ 64)))
    (.invalid "checksum has incorrect length")
  require (algorithm = "sha256" ∨ algorithm = "sha512") .sqlite
  .ok ⟨algorithm, digest⟩

/-- A checksum an item gives of its content. -/
def contentChecksum (item : Json) (algorithm : String) : ProjectionResult Unit :=
  match optionalString item (algorithm ++ "_hex") with
  | some hash => do
      let _ ← checksum algorithm hash
      .ok ()
  | none => .ok ()

def content (item : Json) (record : String) (time size : Nat) :
    ProjectionResult (Projection × String) := do
  let name ← string item "object_id"
  let hash ← string item "blake3_hex"
  require (name = "blake3:" ++ hash) (.invalid "content identity disagrees with BLAKE3")
  let digest ← hexBytes hash
  require (digest.length = 32) (.invalid "invalid BLAKE3 length")
  let objects := db.contentObjects.insertOrIgnore
    ⟨name, size, optionalString item "extension_hint", record, time⟩
  let stored ← statement (objects.get? name)
  require (stored.sizeBytes = size) (.invalid ("conflicting content identity for " ++ name))
  contentChecksum item "sha256"
  contentChecksum item "sha512"
  .ok ({ db with contentObjects := objects }, name)

/-! ### Files and their locations -/

def file (item : Json) (record : String) (content external : Option String)
    (state : IdentityState) : ProjectionResult (Projection × String) := do
  let collectionId ← string item "collection_id"
  named db.collections collectionId
  let (logical, path) ← pathValue R item "logical_path"
  let name ← string item "file_ref_id"
  let modifiedTime ← optionalNumber item "modified_time_utc_ms"
  let observedSize ← observedSize item
  let row : FileObjectRow :=
    { canonicalId := name
      collectionId := collectionId
      path := path
      pathDisplay := sparseDisplay logical path
      content := content
      external := external
      identityState := state
      active := true
      modifiedTime := modifiedTime
      observedSize := observedSize
      firstRecord := record
      lastRecord := record
      removedRecord := none }
  let files ← statement (db.fileObjects.upsert? row fun old => old.updated row)
  .ok ({ db with fileObjects := files }, name)

def binding (item : Json) (fileId locationId record : String) (time : Nat)
    (content external : Option String) (presence preserveModifiedTime : Bool) :
    ProjectionResult (Projection × BindingKey) := do
  named db.locations locationId
  let observedSize ← observedSize item
  let modifiedTime ← optionalNumber item "modified_time_utc_ms"
  let row : FileLocationRow :=
    { fileId := fileId
      locationId := locationId
      representation := (optionalString item "representation").getD "ordinary_file"
      content := content
      external := external
      presence := presence
      copyId := none
      latestPresence := none
      firstRecord := record
      lastRecord := record
      seenTime := time
      observedSize := observedSize
      modifiedTime := modifiedTime
      completeScan := none }
  let locations := db.fileLocations.upsert row fun old => old.updated row preserveModifiedTime
  .ok ({ db with fileLocations := locations }, row.binding)

def annexContentLocation (fileId locationId : String) (content external : Option String)
    (record : String) (time : Nat) (presence : Option Bool) : Projection × BindingKey :=
  let row : FileLocationRow :=
    { fileId := fileId
      locationId := locationId
      representation := "annex_content"
      content := content
      external := external
      presence := presence.getD false
      copyId := none
      latestPresence := none
      firstRecord := record
      lastRecord := record
      seenTime := if presence.isNone then 0 else time
      observedSize := none
      modifiedTime := none
      completeScan := none }
  let locations := db.fileLocations.upsert row fun old => old.updatedContent row presence
  ({ db with fileLocations := locations }, row.binding)

/-- `UPDATE file_locations SET copy_id`. -/
def setCopy (binding : BindingKey) (copy : String) : Projection :=
  let locations := db.fileLocations.modify (fun p => p.binding = binding)
    fun p => { p with copyId := some copy }
  { db with fileLocations := locations }

/-! ### Checks -/

def appendCheck (binding : BindingKey) (time : Nat) (presence : Presence) (integrity : Integrity)
    (error : Option (String × Option String)) : Projection × Nat :=
  let locations := db.fileLocations.modify (fun p => p.binding = binding && presence ≠ .unknown)
    fun p => { p with latestPresence := some db.checks.length }
  let check : CheckRow := ⟨binding, time, presence, integrity, error⟩
  ({ db with fileLocations := locations, checks := db.checks ++ [check] }, db.checks.length)

def integrity : Option String → ProjectionResult Integrity
  | none => .ok .unverified
  | some result =>
      if result = "ok" then .ok .verified
      else if result = "hash_mismatch" then .ok .damaged
      else if result = "read_error" ∨ result = "identity_mismatch" then .ok .unverified
      else .error (.invalid ("unsupported integrity result " ++ result))

/-! ### Copies -/

/-- The indexed identity of a physical path. -/
def pathKey (path : StoredPath) : String :=
  R.blake3 (leBytes 8 (utf8 path.encoding).length ++ utf8 path.encoding ++ path.bytes)

/-- The physical path of a Copy: its own locator, or else the path of its owner's File. -/
def copyPath (copy : CopyBindingRow) : Option StoredPath :=
  (db.fileOf copy.owner).map fun file => copy.locator.getD file.path

/-- The active Copies at a physical path under other ids. -/
def occupies (locationId name : String) (path : StoredPath) (copy : CopyBindingRow) : Bool :=
  copy.locationId = locationId && copy.active && copy.canonicalId ≠ name &&
    copy.pathKey = pathKey R path && db.copyPath copy = some path

/-- `UPDATE copy_bindings SET state='superseded'`. -/
def supersede (occupied : CopyBindingRow → Bool) (record : String) : Table copyBindingSchema :=
  db.copyBindings.modify occupied
    (fun copy => { copy with state := .superseded, stateRecord := record })
    (fun _ => rfl)
    (by intro a b h; cases h)

def copy (item : Json) (binding : BindingKey) (locationId name record : String)
    (content external : Option String) (state basis : String) (check : Option Nat)
    (integrity : Integrity) : ProjectionResult (Projection × String) := do
  let (copy, path) ← pathValue R item "copy_path"
  named db.locations locationId
  let owner ← statement (db.fileOf binding)
  let occupied := db.occupies R locationId name path
  require (¬ (db.copyBindings.rows.any occupied ∧ basis = "source_metadata"))
    (.invalid "inventory Copy conflicts with an active physical path")
  let copyState ← statement (CopyState.ofStr? state)
  let claimBasis ← statement (ClaimBasis.ofStr? basis)
  let stated := (optionalString item "verification_result").isSome
  let row : CopyBindingRow :=
    { canonicalId := name
      owner := binding
      locationId := locationId
      pathKey := pathKey R path
      locator := if owner.path = path then none else some path
      locatorDisplay := if owner.path = path then none else sparseDisplay copy path
      content := content
      external := external
      basis := claimBasis
      state := copyState
      firstRecord := record
      stateRecord := record
      latestPresence := if state ∈ ["present", "missing", "corrupt"] then check else none
      latestIntegrity := if integrity ≠ .unverified ∨ stated then check else none
      completeScan := none }
  let copies ← statement ((db.supersede occupied record).upsert? row (fun old => old.updated row)
    (fun old => old.updated_canonicalId row))
  .ok ({ db with copyBindings := copies }.setCopy binding name, name)

end Projection

end ArchiveLedger
