import ArchiveLedger.Foundation.Keyset
import ArchiveLedger.Foundation.Outcome
import ArchiveLedger.Policy.Coverage

/-!
# Selections of Copies to verify and to repair

The three queries of `main.rs` over the views of a projection: the count of due Copies,
the verification targets and the repair targets.  `DUE_COPIES_SQL` is `isDue`, and
`COPY_OBSERVATION_MATCH` is `copyObservationMatch`; the targets add a File to a due Copy
(`dueFile`), and repair takes the File of one observation (`repairObservation`).
-/

namespace ArchiveLedger

open Relational Outcome

/-! ### What is asked for -/

structure VerifyLocation where
  locationId : String
  root : Bytes
  fingerprintStatus : String
deriving DecidableEq, Repr

inductive VerifySelection where
  | due (windowDays : Nat)
  | all
deriving DecidableEq, Repr

/-- The parameters `?1`, `?3` and `?4` of the selection. -/
structure VerifyParams where
  locations : Option (List String)
  all : Bool
  window : Nat
deriving DecidableEq, Repr

def verifySelectionParams (locations : Option (List VerifyLocation)) :
    VerifySelection → VerifyParams
  | .all => ⟨locations.map (List.map VerifyLocation.locationId), true, 0⟩
  | .due window => ⟨locations.map (List.map VerifyLocation.locationId), false, min window i64Max⟩

structure BackgroundTarget where
  copyClaimId : String
  collectionId : String
  locationId : String
  fileRefId : String
  objectId : String
  blake3Hex : String
  sizeBytes : Nat
  logicalPath : RegistryPath
  copyPath : RegistryPath
  externalIdentityId : Option String
  locationRoot : Bytes
  deviceFingerprintStatus : String
deriving DecidableEq, Repr

/-- A corrupt Copy and the observation at which it was last good. -/
structure RepairTarget where
  copy : BackgroundTarget
  observedSize : Option Nat
  observedMtime : Option Nat
deriving DecidableEq, Repr

/-- Why rows are not read back as targets; `unselected` is the `expect` of a Location that
was not asked for. -/
inductive TargetError where
  | invalidUtf8Path
  | unsupportedPathEncoding (encoding : String)
  | unselected (locationId : String)
deriving DecidableEq, Repr

def registryPathFromSql (path : StoredPath) (display : String) : Except TargetError RegistryPath :=
  if path.encoding = "utf8" then do
    let text ← okOr (String.fromUTF8? ⟨path.bytes.toArray⟩) .invalidUtf8Path
    .ok ⟨path.encoding, some text, none, display⟩
  else if path.encoding = "unix_bytes" ∨ path.encoding = "windows_utf16le" then
    .ok ⟨path.encoding, none, some (String.ofList (Base64.encode Base64.standard path.bytes)), display⟩
  else .error (.unsupportedPathEncoding path.encoding)

def backgroundTarget (locations : List VerifyLocation) (cc : CopyClaim) (o : ContentObjectRow)
    (f : FileRef) : Except TargetError BackgroundTarget := do
  let location ← okOr (locations.find? fun l => l.locationId = cc.locationId) (.unselected cc.locationId)
  let logicalPath ← registryPathFromSql f.logicalPath f.logicalPathDisplay
  let copyPath ← registryPathFromSql cc.relativePath cc.relativePathDisplay
  .ok
    { copyClaimId := cc.copyClaimId
      collectionId := f.collectionId
      locationId := cc.locationId
      fileRefId := f.fileRefId
      objectId := o.objectId
      blake3Hex := o.canonicalHashHex
      sizeBytes := o.sizeBytes
      logicalPath := logicalPath
      copyPath := copyPath
      externalIdentityId := cc.externalIdentityId
      locationRoot := location.root
      deviceFingerprintStatus := location.fingerprintStatus }

/-! ### The orders of the queries -/

/-- The order of candidate Files. -/
def candidateRank (f : FileRef) : List Nat ×ₗ List Nat ×ₗ List Nat ×ₗ List Nat :=
  toLex (textRank f.collectionId, toLex (textRank f.logicalPath.encoding,
    toLex (blobRank f.logicalPath.bytes, textRank f.fileRefId)))

/-- The order of verification targets; a Copy that was never verified comes first. -/
def dueRank (row : CopyClaim × ContentObjectRow) : Int ×ₗ List Nat :=
  toLex ((row.1.lastVerifiedTimeUtcMs.map Nat.cast).getD (-1), textRank row.1.copyClaimId)

/-- The order of the observations of a Copy. -/
def observationRank (here : PathObservation) : List Nat ×ₗ List Nat ×ₗ List Nat :=
  toLex (textRank here.observedPath.encoding,
    toLex (blobRank here.observedPath.bytes, textRank here.fileRefId))

/-- A corrupt Copy with its Object, the observation and the File repair takes it by. -/
structure RepairRow where
  copy : CopyClaim
  object : ContentObjectRow
  here : PathObservation
  file : FileRef

def repairRank (row : RepairRow) : List Nat ×ₗ List Nat ×ₗ List Nat :=
  toLex (textRank row.copy.locationId, toLex (textRank row.copy.relativePath.encoding,
    blobRank row.copy.relativePath.bytes))

/-! ### The conditions of the queries -/

/-- `COPY_OBSERVATION_MATCH`. -/
def copyObservationMatch (cc : CopyClaim) (here : PathObservation) : Bool :=
  decide (here.locationId = cc.locationId) && here.present &&
    (decide (here.observedPath = cc.relativePath) ||
      (decide (here.representation = "annex_locked_symlink") && here.externalIdentityId.isSome &&
        decide (here.externalIdentityId = cc.externalIdentityId)))

/-- The age at which a check is due: within the window of expiring, but never before half
of the age. -/
def dueAge (maxDays window : Nat) : Int := max ((maxDays : Int) - window) ((maxDays / 2 : Nat) : Int)

/-- The checks of a Copy ask for another one under the requirements of a Policy. -/
def pastDue (asOf window : Nat) (requirements : PolicyRequirements) (cc : CopyClaim) : Bool :=
  cc.lastVerifiedTimeUtcMs.isNone || decide (cc.lastVerificationResult ≠ some .ok) ||
    (cc.lastVerifiedTimeUtcMs.any fun t : Nat =>
      decide ((t : Int) < asOf - dueAge requirements.maxVerificationAgeDays window * dayMs)) ||
    cc.lastSeenTimeUtcMs.isNone ||
    (cc.lastSeenTimeUtcMs.any fun t : Nat =>
      decide ((t : Int) < asOf - (requirements.maxObservationAgeDays : Int) * dayMs))

namespace Projection

variable (db : Projection)

def fileRef? (fileRefId : String) : Option FileRef := (db.fileObjects.get? fileRefId).bind db.fileRef

/-- The File is active, of the Copy's Object, and makes the Copy due. -/
def dueFileRef (params : VerifyParams) (asOf : Nat) (cc : CopyClaim) (f : FileRef) : Bool :=
  f.objectId.isSome && decide (f.objectId = cc.objectId) && f.active &&
    (db.activeCollection f.collectionId).any fun collection => params.all ||
      (db.activePolicy collection).any fun p => pastDue asOf params.window p.requirements cc

/-- `DUE_COPIES_SQL`, but for the join with `objects`. -/
def isDue (params : VerifyParams) (asOf : Nat) (cc : CopyClaim) : Bool :=
  params.locations.all (fun ids => decide (cc.locationId ∈ ids)) &&
    decide (cc.state = .present ∨ cc.state = .corrupt ∨ cc.state = .unknown) &&
    cc.lastVerifiedTimeUtcMs.all (fun t : Nat => decide (t < asOf)) &&
    db.pathObservations.any (copyObservationMatch cc) &&
    db.fileRefs.any (db.dueFileRef params asOf cc)

def object? (cc : CopyClaim) : Option ContentObjectRow := cc.objectId.bind db.contentObjects.get?

def dueCopies (params : VerifyParams) (asOf : Nat) : List (CopyClaim × ContentObjectRow) :=
  db.copyClaims.filterMap fun cc => do
    let o ← db.object? cc
    if db.isDue params asOf cc then some (cc, o) else none

def countDueCopies (locations : Option (List VerifyLocation)) (selection : VerifySelection)
    (asOf : Nat) : Nat :=
  (db.dueCopies (verifySelectionParams locations selection) asOf).length

/-! ### Verification targets -/

/-- The active File of the Copy's Object, in an active Collection, of a matching observation. -/
def candidateFile (cc : CopyClaim) (here : PathObservation) : Option FileRef :=
  (db.fileRef? here.fileRefId).filter fun f => copyObservationMatch cc here &&
    (db.activeCollection f.collectionId).isSome && f.objectId.isSome && decide (f.objectId = cc.objectId) &&
    f.active

def dueFile (cc : CopyClaim) : Option FileRef :=
  (Keyset.sorted candidateRank (db.pathObservations.filterMap (db.candidateFile cc))).head?

/-- The due Copies with their Files, least recently verified first. -/
def dueRows (params : VerifyParams) (asOf : Nat) : List ((CopyClaim × ContentObjectRow) × FileRef) :=
  (Keyset.sorted dueRank (db.dueCopies params asOf)).filterMap fun row =>
    (db.dueFile row.1).map fun f => (row, f)

def dueVerificationTargets (locations : List VerifyLocation) (selection : VerifySelection)
    (asOf limit : Nat) : Except TargetError (List BackgroundTarget) :=
  if locations = [] ∨ limit = 0 then .ok []
  else ((db.dueRows (verifySelectionParams (some locations) selection) asOf).take limit).mapM
    fun row => backgroundTarget locations row.1.1 row.1.2 row.2

/-! ### Repair targets -/

/-- The first matching observation.  Its File, Location and path are no other row's, so
the outer join finds it again. -/
def repairObservation (cc : CopyClaim) : Option PathObservation :=
  (Keyset.sorted observationRank (db.pathObservations.filter (copyObservationMatch cc))).head?

/-- The active File of the Copy's Object at an observation. -/
def repairFile (cc : CopyClaim) (here : PathObservation) : Option FileRef :=
  (db.fileRef? here.fileRefId).filter fun f => f.objectId.isSome && decide (f.objectId = cc.objectId) && f.active

def repairRow (ids : List String) (cc : CopyClaim) : Option RepairRow := do
  let o ← db.object? cc
  let here ← db.repairObservation cc
  let f ← db.repairFile cc here
  if cc.state = .corrupt ∧ cc.locationId ∈ ids then some ⟨cc, o, here, f⟩ else none

def repairTargets (locations : List VerifyLocation) : Except TargetError (List RepairTarget) :=
  (Keyset.sorted repairRank
    (db.copyClaims.filterMap (db.repairRow (locations.map VerifyLocation.locationId)))).mapM fun row => do
      let copy ← backgroundTarget locations row.copy row.object row.file
      .ok ⟨copy, row.here.observedSizeBytes, row.here.modifiedTimeUtcMs⟩

end Projection

end ArchiveLedger
