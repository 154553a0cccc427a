import ArchiveLedger.Projection.Content

/-!
# Projecting observations

`project_content_observed` with the conflict rule for the identity of a File,
`project_annex_entry` with the absence of annex content, and
`project_copy_verification_failed`.
-/

namespace ArchiveLedger

open Relational Outcome Transition

/-! ### Identity conflicts -/

/-- The order of `(origin_id, origin_seq)`. -/
def RecordDot.le (a b : RecordDot) : Bool :=
  textLt a.originId b.originId || (a.originId = b.originId && a.originSeq ≤ b.originSeq)

def lengthPrefixed (part : Bytes) : Bytes := beBytes 8 part.length ++ part

/-- The key of a logical path in `fact_conflicts`. -/
def entityKey (collectionId : String) (path : StoredPath) : Bytes :=
  lengthPrefixed (utf8 collectionId) ++ lengthPrefixed (utf8 path.encoding) ++
    lengthPrefixed path.bytes

def conflictId (R : ProjectionRuntime) (entity : Bytes) (left right : RecordDot) : String :=
  "conflict_" ++ R.blake3 (utf8 "file_identity_conflict" ++ [0] ++ entity ++
    utf8 left.originId ++ beBytes 8 left.originSeq ++ utf8 right.originId ++ beBytes 8 right.originSeq)

/-- The row that records two contradicting records, the lesser first. -/
def fileIdentityConflict (R : ProjectionRuntime) (collectionId : String) (path : StoredPath)
    (existing observed : RecordDot) : FactConflictRow :=
  let entity := entityKey collectionId path
  let left := if existing.le observed then existing else observed
  let right := if existing.le observed then observed else existing
  ⟨conflictId R entity left right, entity, left, right, .unresolved, none⟩

def VerifiedV2Record.dot (record : VerifiedV2Record) : RecordDot :=
  ⟨record.originId, record.originSeq, record.record.envelope.recordId⟩

namespace Projection

variable (R : ProjectionRuntime)

def insertFileIdentityConflict (db : Projection) (collectionId : String) (path : StoredPath)
    (existing observed : RecordDot) : ProjectionResult Projection := do
  let row := fileIdentityConflict R collectionId path existing observed
  let _ ← sqlI64 row.left.originSeq "left conflict sequence"
  let _ ← sqlI64 row.right.originSeq "right conflict sequence"
  -- a violated CHECK is ignored like a violated unique constraint
  let conflicts := if 0 < row.left.originSeq ∧ 0 < row.right.originSeq then
    db.factConflicts.insertOrIgnore row else db.factConflicts
  .ok { db with factConflicts := conflicts }

/-! ### Observed content -/

/-- `ACTIVE_FILE_LOOKUP`. -/
def activeFile (db : Projection) (collectionId : String) (path : StoredPath) :
    Option FileObjectRow :=
  db.fileObjects.rows.find? fun file => file.active && file.at = (collectionId, path)

/-- Whether an observation leaves the File of its path in conflict: a File in conflict
stays so, and another object needs a causal base that includes the last record. -/
def contentConflict (db : Projection) (record : VerifiedV2Record) (frontiers : FrontierMap)
    (collectionId : String) (path : StoredPath) (objectId : String) :
    Option FileObjectRow → ProjectionResult (Projection × Bool)
  | none => .ok (db, false)
  | some existing =>
      if existing.identityState = .conflict then .ok (db, true)
      else if existing.content.all (· = objectId) then .ok (db, false)
      else do
        let old ← statement (db.records.get? existing.lastRecord)
        let frontier ← okOr (frontiers.get? record.causalFrontierHash)
          (.invalid "content observation causal frontier is unavailable")
        if frontier.includesDot old.originId old.originSeq then .ok (db, false)
        else do
          let db ← db.insertFileIdentityConflict R collectionId path old.dot record.dot
          .ok (db, true)

/-- The File of an observation, with the identity it has afterwards. -/
def observeFile (db : Projection) (item : Json) (record : VerifiedV2Record)
    (frontiers : FrontierMap) (objectId : String) (external : Option String) :
    ProjectionResult (Projection × String) := do
  let collectionId ← string item "collection_id"
  let (_, path) ← pathValue R item "logical_path"
  let existing := db.activeFile collectionId path
  require (existing.all fun file => file.canonicalId = (optionalString item "file_ref_id").getD "")
    (.invalid "content item changes the stable File ID for a logical path")
  let (db, conflict) ← db.contentConflict R record frontiers collectionId path objectId existing
  db.file R item record.record.envelope.recordId (if conflict then none else some objectId) external
    (if conflict then .conflict else .resolved)

/-- The external identity an observation names, resolved to its content when a
checksum comes with it. -/
def observeExternal (db : Projection) (item : Json) (record objectId : String) :
    ProjectionResult (Projection × Option String) :=
  match optionalString item "external_identity_id" with
  | none => .ok (db, none)
  | some name => do
      named db.sourceIdentities name
      let checked := (optionalString item "sha256_hex").isSome || (optionalString item "sha512_hex").isSome
      let identities := db.sourceIdentities.modify
        (fun x => checked && x.canonicalId = name && x.resolution ≠ .conflict)
        fun x => { x with content := some objectId, resolution := .resolved, resolvedRecord := some record }
      .ok ({ db with sourceIdentities := identities }, some name)

def projectContentObserved (db : Projection) (item : Json) (record : VerifiedV2Record)
    (frontiers : FrontierMap) : ProjectionResult Projection := do
  let rid ← db.recordKey record
  let observedTime ← number item "observed_time_utc_ms"
  let time ← sqlI64 observedTime "observation time"
  let sizeBytes ← number item "size_bytes"
  let size ← sqlI64 sizeBytes "object size"
  let _ ← string item "representation"
  let (db, objectId) ← db.content item rid time size
  let (db, external) ← db.observeExternal item rid objectId
  let (db, fileId) ← db.observeFile R item record frontiers objectId external
  let location ← string item "location_id"
  let (db, bound) ← db.binding item fileId location rid time (some objectId) external true false
  let (db, check) := db.appendCheck bound time .present .verified none
  let copyId ← string item "copy_claim_id"
  let (db, _) ← db.copy R item bound location copyId rid (some objectId) external "present"
    "observed_bytes" (some check) .verified
  .ok db

/-! ### Annex entries -/

def expectedChecksum (item : Json) : ProjectionResult (Option Checksum) :=
  match optionalString item "expected_hash_algo", optionalString item "expected_hash_hex" with
  | some algorithm, some hex => do
      let expected ← checksum algorithm hex
      .ok (some expected)
  | _, _ => .ok none

/-- What `ON CONFLICT(canonical_id) DO UPDATE` makes of an identity. -/
def updatedIdentity (old excluded : SourceIdentityRow) : SourceIdentityRow :=
  { old with
    expectedChecksum := excluded.expectedChecksum
    expectedSize := excluded.expectedSize
    content := if old.resolution = .conflict then old.content else excluded.content.or old.content
    resolution :=
      if old.resolution ≠ .conflict ∧ excluded.content.isSome then .resolved else old.resolution
    resolvedRecord := if old.resolution = .conflict then old.resolvedRecord
      else excluded.resolvedRecord.or old.resolvedRecord }

/-- The source identity of an annex entry. -/
def annexIdentity (db : Projection) (item : Json) (record : String) (content : Option String) :
    ProjectionResult (Projection × SourceIdentityRow) := do
  let expected ← expectedChecksum item
  let name ← string item "external_identity_id"
  let resolution ← string item "resolution_state"
  let sourceKey ← string item "external_key"
  let expectedSize ← optionalNumber item "expected_size_bytes"
  let resolution ← statement (Resolution.ofStr? resolution)
  let row : SourceIdentityRow :=
    ⟨name, sourceKey, expected, expectedSize, content, resolution, record, content.map fun _ => record⟩
  -- the update is skipped where it would change nothing
  let identities ← statement (db.sourceIdentities.upsert? row fun old => updatedIdentity old row)
  let identity ← statement (identities.get? name)
  .ok ({ db with sourceIdentities := identities }, identity)

/-- The content an annex entry names. -/
def annexContent (db : Projection) (item : Json) (record : String) (time : Nat) :
    ProjectionResult (Projection × Option String) :=
  if (optionalString item "object_id").isSome then do
    let observed ← number item "observed_size_bytes"
    let size ← sqlI64 observed "annex size"
    let (db, objectId) ← db.content item record time size
    .ok (db, some objectId)
  else .ok (db, none)

/-- The state of a File whose identity is a source identity of a given resolution. -/
def identityStateOf (content : Option String) (resolution : String) : Option IdentityState :=
  if content.isSome then some .resolved
  else (Resolution.ofStr? resolution).map fun
    | .unresolved => .unresolved
    | .resolved => .resolved
    | .conflict => .conflict
    | .unsupported => .unknown

/-- The File of an annex entry; an absent one rewrites a File only to change it. -/
def annexFile (db : Projection) (item : Json) (record : String) (absent : Bool)
    (content : Option String) (external : String) (state : IdentityState) :
    ProjectionResult (Projection × String) := do
  let name ← string item "file_ref_id"
  if absent && (db.fileObjects.get? name).any (fun f => f.external = some external &&
      f.content = content && f.identityState = state && f.active) then .ok (db, name)
  else db.file R item record content (some external) state

def observedPresence (state : String) : Presence :=
  if state = "present" ∨ state = "corrupt" then .present
  else if state = "missing" then .missing
  else .unknown

def pathPresence (pathState : String) : Presence :=
  if pathState = "present" then .present else .missing

/-- The presence of a file location, where it is known. -/
def knownPresence : Presence → Option Bool
  | .present => some true
  | .missing => some false
  | .unknown => none

/-- The file location a Copy of an annex entry stands at: the annex content has a
location and a presence of its own. -/
def annexTarget (db : Projection) (fileId worktree copyLocation : String) (bound : BindingKey)
    (record : String) (time : Nat) (content : Option String) (external : String)
    (pathState state : String) (inventory : Bool) : ProjectionResult (Projection × BindingKey) :=
  if copyLocation = worktree then .ok (db, bound)
  else do
    let db := if inventory then db
      else (db.appendCheck bound time (pathPresence pathState) .unverified none).1
    named db.locations copyLocation
    .ok (db.annexContentLocation fileId copyLocation content (some external) record time
      (if inventory then none else knownPresence (observedPresence state)))

/-- The check of a Copy of an annex entry; source metadata is no check. -/
def annexCheck (db : Projection) (item : Json) (target : BindingKey) (time : Nat) (state : String)
    (integrity : Integrity) (inventory : Bool) : Projection × Option Nat :=
  if inventory then (db, none)
  else
    let error := ((optionalString item "verification_result").filter (· ≠ "ok")).map fun result =>
      (result, optionalString item "error_detail")
    let (db, check) := db.appendCheck target time (observedPresence state) integrity error
    (db, some check)

def annexCopy (db : Projection) (item : Json) (fileId worktree : String) (bound : BindingKey)
    (record : String) (time : Nat) (content : Option String) (external : String)
    (pathState name copyLocation : String) (integrity : Integrity) (inventory : Bool) :
    ProjectionResult Projection := do
  let state := (optionalString item "copy_state").getD "unknown"
  let (db, target) ← db.annexTarget fileId worktree copyLocation bound record time content external
    pathState state inventory
  let (db, check) := db.annexCheck item target time state integrity inventory
  let (db, copy) ← db.copy R item target copyLocation name record content (some external) state
    ((optionalString item "claim_basis").getD "observed_bytes") check integrity
  .ok (db.setCopy bound copy)

/-- The Copy an annex entry names: its id and Location, when its path is given too. -/
def annexCopyOf (item : Json) : Option (String × String) :=
  match optionalString item "copy_claim_id", optionalString item "copy_location_id",
      item.get "copy_path" with
  | _, _, some .null => none
  | some name, some location, some _ => some (name, location)
  | _, _, _ => none

/-- `INSERT ... ON CONFLICT DO UPDATE ... WHERE excluded.state!='unknown'`. -/
def observeAvailability (db : Projection) (row : SourceAvailabilityRow) : Projection :=
  let known := row.state ≠ .unknown
  let availability := db.sourceAvailability.upsert row fun old => { old with
    state := if known then row.state else old.state
    locationId := if known then row.locationId else old.locationId
    observedTime := if known then row.observedTime else old.observedTime
    record := if known then row.record else old.record }
  { db with sourceAvailability := availability }

def projectAnnexPresence (db : Projection) (item : Json) (fileId : String) (content : Option String)
    (external record : String) (time : Nat) (inventory : Bool) : ProjectionResult Projection := do
  let worktree ← string item "worktree_location_id"
  let pathState ← string item "path_state"
  let (db, bound) ← db.binding item fileId worktree record time content (some external)
    (pathState = "present") false
  let source ← string item "source_repo_id"
  let cas ← string item "cas_location_id"
  named db.locations cas
  let availability ← string item "local_availability"
  let availability ← statement (Presence.ofStr? availability)
  let db := db.observeAvailability ⟨external, source, availability, cas, time, record⟩
  let integrity ← integrity (optionalString item "verification_result")
  match annexCopyOf item with
  | some (name, copyLocation) =>
      db.annexCopy R item fileId worktree bound record time content external pathState name
        copyLocation integrity inventory
  | none =>
      .ok (if inventory then db
        else (db.appendCheck bound time (pathPresence pathState) .unverified none).1)

/-! ### Absent annex content -/

/-- The states of a Copy that was observed and may turn out missing. -/
def CopyBindingRow.claimed (copy : CopyBindingRow) : Bool :=
  (copy.state = .present || copy.state = .corrupt || copy.state = .unknown) &&
    copy.basis ≠ .sourceMetadata

def annexRepresentation (representation : String) : Bool :=
  representation = "annex_content" || representation = "annex_locked_symlink"

/-- `ANNEX_ABSENT_CAS_COPIES`. -/
def absentCasCopies (db : Projection) (external location : String) : List CopyBindingRow :=
  db.copyBindings.rows.filter fun copy => copy.external = some external &&
    copy.locationId = location && CopyBindingRow.claimed copy &&
    (db.fileLocations.get? copy.owner).any fun p => annexRepresentation p.representation

/-- The Copy of an unlocked worktree path. -/
def absentWorktreeCopies (db : Projection) (fileId location : String) : List CopyBindingRow :=
  match db.fileLocations.get? (fileId, location) with
  | none => []
  | some p => db.copyBindings.rows.filter fun copy => p.copyId = some copy.canonicalId &&
      copy.locationId = location && CopyBindingRow.claimed copy && !annexRepresentation p.representation

/-- One Copy, and every file location that refers to it, becomes missing. -/
def missingCopy (record : String) (time : Nat) (db : Projection) (copy : CopyBindingRow) :
    ProjectionResult Projection := do
  let (db, check) := db.appendCheck copy.owner time .missing .unverified none
  let copies ← statement (db.copyBindings.modify? (fun c => c.canonicalId = copy.canonicalId)
    fun c => { c with state := .missing, stateRecord := record, latestPresence := some check })
  let locations := db.fileLocations.modify (fun p => p.copyId = some copy.canonicalId)
    fun p => { p with presence := false, lastRecord := record, seenTime := time, latestPresence := some check }
  .ok { db with copyBindings := copies, fileLocations := locations }

/-- `ANNEX_REMOVE_AVAILABILITY`. -/
def removeAvailability (db : Projection) (external cas source worktree : String) : Projection :=
  let held := db.copyBindings.rows.any fun copy => copy.external = some external &&
    (copy.locationId = cas || copy.locationId = worktree) &&
    (copy.state = .present || copy.state = .corrupt)
  let availability := db.sourceAvailability.delete fun a =>
    a.identity = external && a.locationId = cas && a.source = source && !held
  { db with sourceAvailability := availability }

def projectAnnexAbsence (db : Projection) (item : Json) (fileId external record : String)
    (time : Nat) : ProjectionResult Projection := do
  let representation ← string item "representation"
  let locked := representation = "annex_locked_symlink"
  let location ← string item (if locked then "cas_location_id" else "worktree_location_id")
  named db.locations location
  let copies := if locked then db.absentCasCopies external location
    else db.absentWorktreeCopies fileId location
  let db ← commitAll (missingCopy record time) db copies
  let cas ← string item "cas_location_id"
  named db.locations cas
  let worktree ← string item "worktree_location_id"
  named db.locations worktree
  let source ← string item "source_repo_id"
  .ok (db.removeAvailability external cas source worktree)

/-! ### The annex entry -/

/-- The claims of the item rest on source metadata. -/
def isInventory (item : Json) : Bool :=
  optionalString item "claim_basis" = some "source_metadata"

/-- The entry adds an identity and no observation of a physical location. -/
def annexAbsent (item : Json) : Bool :=
  !isInventory item &&
    optionalString item "local_availability" = some "missing" &&
    (optionalString item "verification_result").isNone && (optionalString item "object_id").isNone

def projectAnnexObservation (db : Projection) (item : Json) (record : String) (time : Nat) :
    ProjectionResult Projection := do
  let (db, content) ← db.annexContent item record time
  let (db, identity) ← db.annexIdentity item record content
  let resolution ← string item "resolution_state"
  let fileContent := content.or identity.content
  let state ← statement (identityStateOf fileContent resolution)
  let external := identity.canonicalId
  let (db, fileId) ← db.annexFile R item record (annexAbsent item) fileContent external state
  if annexAbsent item then db.projectAnnexAbsence item fileId external record time
  else db.projectAnnexPresence R item fileId content external record time (isInventory item)

def projectAnnexEntry (db : Projection) (item : Json) (record : VerifiedV2Record) :
    ProjectionResult Projection := do
  let rid ← db.recordKey record
  let time ← sqlI64 record.record.envelope.timeUtcMs "annex observation time"
  db.projectAnnexObservation R item rid time

/-! ### Failed verifications -/

/-- `copy_claims` holds the Copy with this Location, path and object. -/
def failureMatches (db : Projection) (copy : CopyBindingRow) (location : String) (path : StoredPath)
    (objectId : String) : ProjectionResult Bool :=
  let placed := copy.locationId = location ∧ db.copyPath copy = some path
  match copy.content with
  | some content => .ok (placed ∧ content = objectId)
  | none => if placed then .error .sqlite else .ok false

/-- The check that a failure does not change the Copy it names. -/
def checkFailureIdentity (db : Projection) (item : Json) (existing : Option CopyBindingRow)
    (location objectId : String) : ProjectionResult Unit :=
  match existing with
  | none => .ok ()
  | some copy => do
      let (_, path) ← pathValue R item "copy_path"
      let valid ← db.failureMatches copy location path objectId
      require valid (.invalid "verification failure changes Copy identity")

/-- A failure that names a File attaches a corrupt Copy to it. -/
def projectFileFailure (db : Projection) (item : Json) (result fileRefId rid : String) (time : Nat)
    (name location : String) : ProjectionResult Projection := do
  let (_, path) ← pathValue R item "logical_path"
  let collectionId ← string item "collection_id"
  let objectId ← string item "object_id"
  let expectedHex ← string item "expected_hash_hex"
  let valid := (db.fileObjects.get? fileRefId).any (fun f => f.at = (collectionId, path)) &&
    (db.contentObjects.get? objectId).isSome && objectId = "blake3:" ++ expectedHex
  let invalid : ProjectionError :=
    .invalid "ordinary verification failure has invalid expected File/Object"
  require (valid ∧ result = "hash_mismatch") invalid
  let algorithm ← string item "expected_hash_algo"
  require (algorithm = "blake3") invalid
  db.checkFailureIdentity R item (db.copyBindings.get? name) location objectId
  let files ← statement (db.fileObjects.modify? (fun f => f.canonicalId = fileRefId)
    fun f => { f with active := true, removedRecord := none })
  let db := { db with fileObjects := files }
  let (db, bound) ← db.binding item fileRefId location rid time (some objectId) none true true
  let (db, check) := db.appendCheck bound time .present .damaged
    (some (result, optionalString item "error_detail"))
  let (db, _) ← db.copy R item bound location name rid (some objectId) none "corrupt"
    "observed_bytes" (some check) .damaged
  .ok db

/-- A failure that names a Copy only. -/
def projectCopyFailure (db : Projection) (item : Json) (result rid : String) (time : Nat)
    (name location : String) : ProjectionResult Projection := do
  let copy ← okOr (db.copyBindings.get? name)
    (.invalid ("verification failure references unknown Copy " ++ name))
  require (copy.locationId = location) .sqlite
  let mismatch := result = "hash_mismatch"
  let (db, check) := db.appendCheck copy.owner time (if mismatch then .present else .unknown)
    (if mismatch then .damaged else .unverified) (some (result, optionalString item "error_detail"))
  let copies ← statement (db.copyBindings.modify? (fun c => c.canonicalId = name) fun c => { c with
    state := if mismatch then .corrupt else .unknown
    stateRecord := rid
    latestPresence := if mismatch then some check else c.latestPresence
    latestIntegrity := some check })
  .ok { db with copyBindings := copies }

/-- `verified_time_utc_ms`, or else the time of the record. -/
def verificationTime (item : Json) (record : VerifiedV2Record) : ProjectionResult Nat := do
  let verified ← optionalNumber item "verified_time_utc_ms"
  let time ← sqlI64 record.record.envelope.timeUtcMs "verification time"
  .ok (verified.getD time)

def projectCopyVerificationFailed (db : Projection) (item : Json) (record : VerifiedV2Record) :
    ProjectionResult Projection := do
  let result ← string item "result"
  require (result ∈ ["hash_mismatch", "read_error", "identity_mismatch"])
    (.invalid ("unsupported verification failure " ++ quoted result))
  let rid ← db.recordKey record
  let time ← verificationTime item record
  let name ← string item "copy_claim_id"
  let location ← string item "location_id"
  match optionalString item "file_ref_id" with
  | some fileRefId => db.projectFileFailure R item result fileRefId rid time name location
  | none => db.projectCopyFailure item result rid time name location

end Projection

end ArchiveLedger
