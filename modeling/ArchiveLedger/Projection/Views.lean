import ArchiveLedger.Catalog.Queries
import ArchiveLedger.Projection.Schema

/-!
# The views of a projection

The views `objects`, `file_refs`, `path_observations` and `copy_claims` of
`compact_projection.sql`, with the columns that reviews, reports and verification read.
Their joins are over keys, so a row of a view stands for one row of the table it starts
from (`copyClaim_copyClaimId`, `pathObservation_key`).
-/

namespace ArchiveLedger

open Relational

/-! ### Objects -/

/-- The hexadecimal digest of which `object_id` is generated. -/
def ContentObjectRow.canonicalHashHex (o : ContentObjectRow) : String :=
  String.ofList (o.objectId.toList.drop 7)

/-! ### Checks -/

inductive VerificationResult where
  | ok | hashMismatch | readError | identityMismatch
deriving DecidableEq, Repr

/-- The `last_verification_result` of a Copy whose `latest_integrity` is this check. -/
def CheckRow.verificationResult (v : CheckRow) : Option VerificationResult :=
  let measured := match v.integrity with
    | .verified => some .ok
    | .damaged => some .hashMismatch
    | .unverified => none
  match v.error with
  | some (code, _) =>
      if code = "read_error" then some .readError
      else if code = "identity_mismatch" then some .identityMismatch
      else measured
  | none => measured

/-- `CAST(bytes AS TEXT)` of a path whose display is its own text. -/
def castText (bytes : Bytes) : String := (String.fromUTF8? ⟨bytes.toArray⟩).getD ""

/-! ### Rows of the views -/

structure FileRef where
  fileRefId : String
  collectionId : String
  logicalPath : StoredPath
  logicalPathDisplay : String
  objectId : Option String
  active : Bool
deriving DecidableEq, Repr

structure PathObservation where
  fileRefId : String
  locationId : String
  observedPath : StoredPath
  representation : String
  externalIdentityId : Option String
  present : Bool
  observedSizeBytes : Option Nat
  modifiedTimeUtcMs : Option Nat
deriving DecidableEq, Repr

structure CopyClaim where
  copyClaimId : String
  locationId : String
  relativePath : StoredPath
  relativePathDisplay : String
  objectId : Option String
  externalIdentityId : Option String
  state : CopyState
  lastSeenTimeUtcMs : Option Nat
  lastVerifiedTimeUtcMs : Option Nat
  lastVerificationResult : Option VerificationResult
deriving DecidableEq, Repr

namespace Projection

variable (db : Projection)

/-- `LEFT JOIN checks`. -/
def check? (id : Option Nat) : Option CheckRow := id.bind fun i => db.checks[i]?

def fileRef (f : FileObjectRow) : Option FileRef :=
  (db.collections.get? f.collectionId).map fun _ =>
    { fileRefId := f.canonicalId
      collectionId := f.collectionId
      logicalPath := f.path
      logicalPathDisplay := f.pathDisplay.getD (castText f.path.bytes)
      objectId := (f.content.bind db.contentObjects.get?).map ContentObjectRow.objectId
      active := f.active }

def fileRefs : List FileRef := db.fileObjects.rows.filterMap db.fileRef

def pathObservation (p : FileLocationRow) : Option PathObservation := do
  let f ← db.fileObjects.get? p.fileId
  let _ ← db.locations.get? p.locationId
  if p.representation = "annex_content" then none else
    some
      { fileRefId := f.canonicalId
        locationId := p.locationId
        observedPath := f.path
        representation := p.representation
        externalIdentityId := (p.external.bind db.sourceIdentities.get?).map SourceIdentityRow.canonicalId
        present := p.presence
        observedSizeBytes := p.observedSize
        modifiedTimeUtcMs := p.modifiedTime }

def pathObservations : List PathObservation := db.fileLocations.rows.filterMap db.pathObservation

def copyClaim (b : CopyBindingRow) : Option CopyClaim := do
  let owner ← db.fileLocations.get? b.owner
  let f ← db.fileObjects.get? owner.fileId
  let _ ← db.locations.get? b.locationId
  let v := db.check? b.latestIntegrity
  some
    { copyClaimId := b.canonicalId
      locationId := b.locationId
      relativePath := b.locator.getD f.path
      relativePathDisplay := match b.locator with
        | some locator => b.locatorDisplay.getD (castText locator.bytes)
        | none => f.pathDisplay.getD (castText f.path.bytes)
      objectId := (b.content.bind db.contentObjects.get?).map ContentObjectRow.objectId
      externalIdentityId := (b.external.bind db.sourceIdentities.get?).map SourceIdentityRow.canonicalId
      state := b.state
      lastSeenTimeUtcMs := (db.check? b.latestPresence).map CheckRow.checkedAt
      lastVerifiedTimeUtcMs := v.map CheckRow.checkedAt
      lastVerificationResult := v.bind CheckRow.verificationResult }

def copyClaims : List CopyClaim := db.copyBindings.rows.filterMap db.copyClaim

end Projection

/-! ### Keys of the views -/

theorem verificationResult_eq_ok {v : CheckRow} :
    v.verificationResult = some .ok ↔ v.integrity = .verified ∧
      (v.error.all fun e => decide (e.1 ≠ "read_error") && decide (e.1 ≠ "identity_mismatch")) = true := by
  unfold CheckRow.verificationResult
  cases v.error with
  | none => cases v.integrity <;> simp
  | some e =>
    obtain ⟨code, detail⟩ := e
    by_cases hread : code = "read_error"
    · simp [hread]
    · by_cases hidentity : code = "identity_mismatch"
      · simp [hidentity]
      · cases v.integrity <;> simp [hread, hidentity]

section Keys

variable {db : Projection}

theorem copyClaim_eq_some {b : CopyBindingRow} {cc : CopyClaim} (h : db.copyClaim b = some cc) :
    cc.copyClaimId = b.canonicalId ∧ cc.locationId = b.locationId ∧ cc.state = b.state ∧
      cc.objectId = (b.content.bind db.contentObjects.get?).map ContentObjectRow.objectId ∧
      cc.lastSeenTimeUtcMs = (db.check? b.latestPresence).map CheckRow.checkedAt ∧
      cc.lastVerifiedTimeUtcMs = (db.check? b.latestIntegrity).map CheckRow.checkedAt ∧
      cc.lastVerificationResult = (db.check? b.latestIntegrity).bind CheckRow.verificationResult := by
  simp only [Projection.copyClaim, Option.bind_eq_bind, Option.bind_eq_some_iff, Option.some.injEq] at h
  obtain ⟨_, -, _, -, _, -, rfl⟩ := h
  exact ⟨rfl, rfl, rfl, rfl, rfl, rfl, rfl⟩

theorem mem_copyClaims {cc : CopyClaim} :
    cc ∈ db.copyClaims ↔ ∃ b ∈ db.copyBindings.rows, db.copyClaim b = some cc :=
  List.mem_filterMap

/-- Two Copies of the view under one id are one. -/
theorem copyClaims_nodup : (db.copyClaims.map CopyClaim.copyClaimId).Nodup := by
  refine List.pairwise_map.mpr (List.pairwise_filterMap.mpr (db.copyBindings.apart.imp ?_))
  intro b b' hapart cc hcc cc' hcc' he
  rw [(copyClaim_eq_some hcc).1, (copyClaim_eq_some hcc').1] at he
  exact hapart.1 he

theorem eq_of_copyClaimId {cc cc' : CopyClaim} (h : cc ∈ db.copyClaims) (h' : cc' ∈ db.copyClaims)
    (he : cc.copyClaimId = cc'.copyClaimId) : cc = cc' :=
  List.inj_on_of_nodup_map copyClaims_nodup h h' he

theorem fileRef_eq_some {f : FileObjectRow} {r : FileRef} (h : db.fileRef f = some r) :
    r.fileRefId = f.canonicalId ∧ r.logicalPath = f.path := by
  obtain ⟨_, -, rfl⟩ := Option.map_eq_some_iff.mp h
  exact ⟨rfl, rfl⟩

end Keys

end ArchiveLedger
