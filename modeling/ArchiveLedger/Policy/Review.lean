import ArchiveLedger.Foundation.Keyset
import ArchiveLedger.Policy.Coverage

/-!
# The two evaluators of a Policy

`v2_object_archive_review` of `stage.rs` judges an Object by the claims of its Copies
(`objectArchiveReview`); the risk report of `main.rs` judges the Files of a Collection by
the coverage of their content (`riskReport`).
-/

namespace ArchiveLedger

open Relational

/-! ### The review of an Object -/

inductive ProtectionState where
  | satisfied | atRisk | unknown
deriving DecidableEq, Repr

structure ObjectArchiveReview where
  collections : List String
  protection : ProtectionState
deriving DecidableEq, Repr

/-- A row of the query over `copy_claims`, with the Location it joins. -/
structure ReviewedCopy where
  copyClaimId : String
  locationId : String
  deviceId : Option String
  siteId : Option String
  expectedAvailability : String
  encryptionState : Option String
  lastSeen : Option Nat
  lastVerified : Option Nat
  result : Option VerificationResult
  lastCheckin : Option Nat
deriving DecidableEq, Repr

def stageAgeIsFresh (now : Nat) (timestamp : Option Nat) (maxDays : Nat) : Bool :=
  freshSince (riskCutoff now maxDays) timestamp

/-- The Copy is not skipped. -/
def ReviewedCopy.counts (now : Nat) (requirements : PolicyRequirements) (r : ReviewedCopy) : Bool :=
  decide (r.result = some .ok) &&
    stageAgeIsFresh now r.lastSeen requirements.maxObservationAgeDays &&
    stageAgeIsFresh now r.lastVerified requirements.maxVerificationAgeDays &&
    (r.deviceId.isNone || stageAgeIsFresh now r.lastCheckin requirements.maxDeviceCheckinAgeDays)

/-- What the sets and flags hold after the rows. -/
def reviewCoverage (homeSite : Option String) (rows : List ReviewedCopy) : Coverage where
  qualifyingCopies := (rows.map ReviewedCopy.copyClaimId).dedup.length
  devices := (rows.filterMap ReviewedCopy.deviceId).dedup.length
  sites := (rows.filterMap ReviewedCopy.siteId).dedup.length
  hasOffsite := rows.any fun r => offsite homeSite r.siteId
  hasOffline := rows.any fun r => decide (r.expectedAvailability = "offline")
  hasEncryptedOffsite :=
    rows.any fun r => offsite homeSite r.siteId && decide (r.encryptionState = some "encrypted")

def PolicyRequirements.violatedBy (requirements : PolicyRequirements) (c : Coverage) : Bool :=
  decide (c.qualifyingCopies < requirements.minQualifyingCopies) ||
    decide (c.devices < requirements.minDevices) || decide (c.sites < requirements.minSites) ||
    (requirements.requireOffsiteCopy && !c.hasOffsite) ||
    (requirements.requireOfflineCopy && !c.hasOffline) ||
    (requirements.requireEncryptedOffsite && !c.hasEncryptedOffsite)

namespace Projection

variable (db : Projection)

/-- The Object whose generated id has the digest. -/
def objectOfHash (hash : String) : Option ContentObjectRow := db.contentObjects.get? ("blake3:" ++ hash)

def objectCollections (hash : String) : List String :=
  match db.objectOfHash hash with
  | none => []
  | some o => Keyset.sorted textRank ((db.fileRefs.filter fun f =>
      decide (f.objectId = some o.objectId) && f.active).map FileRef.collectionId).dedup

/-- The active Collection and its active, enabled Policy. -/
def reviewedPolicy (collectionId : String) : Option (CollectionSnapshot × PolicySnapshot) := do
  let collection ← db.activeCollection collectionId
  let policy ← db.activePolicy collection
  some (collection, policy)

def reviewedCopy (hash : String) (cc : CopyClaim) : Option ReviewedCopy := do
  let o ← db.objectOfHash hash
  let l ← (db.locations.get? cc.locationId).filter fun l => l.snapshot.status = "active"
  let d := db.activeDevice l
  if cc.objectId = some o.objectId ∧ cc.state = .present then
    some
      { copyClaimId := cc.copyClaimId
        locationId := cc.locationId
        deviceId := l.snapshot.deviceId
        siteId := (d.bind fun d => d.snapshot.currentSiteId).or l.snapshot.siteId
        expectedAvailability := l.snapshot.expectedAvailability
        encryptionState := l.snapshot.encryptionState
        lastSeen := cc.lastSeenTimeUtcMs
        lastVerified := cc.lastVerifiedTimeUtcMs
        result := cc.lastVerificationResult
        lastCheckin := d.bind DeviceRow.lastCheckinTimeUtcMs }
  else none

/-- The rows that are not skipped; their order is not read. -/
def countedCopies (now : Nat) (hash : String) (requirements : PolicyRequirements) : List ReviewedCopy :=
  (db.copyClaims.filterMap (db.reviewedCopy hash)).filter (ReviewedCopy.counts now requirements)

def reviewCollection (now : Nat) (hash : String) (protection : ProtectionState) (collectionId : String) :
    ProtectionState :=
  match db.reviewedPolicy collectionId with
  | none => .unknown
  | some (collection, policy) =>
      if policy.requirements.violatedBy
          (reviewCoverage collection.homeSiteId (db.countedCopies now hash policy.requirements)) then .atRisk
      else protection

def objectArchiveReview (now : Nat) (hash : String) : ObjectArchiveReview :=
  let collections := db.objectCollections hash
  if collections = [] then ⟨collections, .unknown⟩
  else ⟨collections, collections.foldl (db.reviewCollection now hash) .satisfied⟩

end Projection

/-! ### The risk report of a Collection -/

structure V2CollectionRisk where
  fileCount : Nat
  knownSizeBytes : Nat
  filesAtRisk : Nat
  filesUncertain : Nat
deriving DecidableEq, Repr

structure V2FileRiskAccumulator where
  fileRefId : String
  logicalPath : String
  objectKnown : Bool
  sizeBytes : Nat
  coverage : Coverage
deriving DecidableEq, Repr

structure V2RiskFinding where
  fileRefId : String
  logicalPath : String
  objectKnown : Bool
  qualifyingCopies : Nat
  devices : Nat
  sites : Nat
  result : String
  reasons : List String
deriving DecidableEq, Repr

def V2FileRiskAccumulator.finding (file : V2FileRiskAccumulator) (result : String) (reasons : List String) :
    V2RiskFinding :=
  ⟨file.fileRefId, file.logicalPath, file.objectKnown, file.coverage.qualifyingCopies,
    file.coverage.devices, file.coverage.sites, result, reasons⟩

/-- `push_v2_risk_finding`. -/
def pushFinding (findings : List V2RiskFinding) (limit : Nat) (finding : V2RiskFinding) : List V2RiskFinding :=
  if findings.length ≥ limit then findings else findings ++ [finding]

def riskReasons (requirements : PolicyRequirements) (c : Coverage) : List String :=
  (if c.qualifyingCopies < requirements.minQualifyingCopies then
    [c.qualifyingCopies.repr ++ " qualifying copies; Policy requires " ++
      requirements.minQualifyingCopies.repr] else []) ++
  (if c.devices < requirements.minDevices then
    [c.devices.repr ++ " Devices; Policy requires " ++ requirements.minDevices.repr] else []) ++
  (if c.sites < requirements.minSites then
    [c.sites.repr ++ " Sites; Policy requires " ++ requirements.minSites.repr] else []) ++
  (if requirements.requireOffsiteCopy && !c.hasOffsite then ["no qualifying offsite copy"] else []) ++
  (if requirements.requireOfflineCopy && !c.hasOffline then ["no qualifying offline copy"] else []) ++
  (if requirements.requireEncryptedOffsite && !c.hasEncryptedOffsite then
    ["no qualifying encrypted offsite copy"] else [])

/-- The finding of a File, if it has one. -/
def riskFinding (policy : Option PolicySnapshot) (file : V2FileRiskAccumulator) : Option V2RiskFinding :=
  match policy with
  | none => some (file.finding "uncertain" ["Collection has no active Policy"])
  | some policy =>
      if !file.objectKnown then some (file.finding "uncertain" ["content identity is unresolved"])
      else
        let reasons := riskReasons policy.requirements file.coverage
        if reasons = [] then none else some (file.finding "violated" reasons)

def finalizeV2FileRisk (limit : Nat) (policy : Option PolicySnapshot)
    (report : V2CollectionRisk × List V2RiskFinding) (file : V2FileRiskAccumulator) :
    V2CollectionRisk × List V2RiskFinding :=
  let result := { report.1 with
    fileCount := saturatingAdd report.1.fileCount 1
    knownSizeBytes := saturatingAdd report.1.knownSizeBytes file.sizeBytes }
  match riskFinding policy file with
  | none => (result, report.2)
  | some finding =>
      let result := if finding.result = "uncertain" then
          { result with filesUncertain := saturatingAdd result.filesUncertain 1 }
        else { result with filesAtRisk := saturatingAdd result.filesAtRisk 1 }
      (result, pushFinding report.2 limit finding)

namespace Projection

variable (db : Projection)

/-- A row of `V2_RISK_DETAILS`; without a Policy nothing is selected for coverage. -/
def fileRisk (now : Nat) (collection : CollectionSnapshot) (policy : Option PolicySnapshot)
    (f : FileObjectRow) : V2FileRiskAccumulator where
  fileRefId := f.canonicalId
  logicalPath := f.pathDisplay.getD (castText f.path.bytes)
  objectKnown := f.content.isSome
  sizeBytes := ((f.content.bind db.contentObjects.get?).map ContentObjectRow.sizeBytes).getD 0
  coverage := match policy, f.content with
    | some policy, some content => db.coverage now collection.homeSiteId policy.requirements content
    | _, _ => Coverage.of collection.homeSiteId []

/-- The active Files of a Collection, by id when findings are asked for. -/
def riskFiles (collection : CollectionSnapshot) (limit : Nat) : List FileObjectRow :=
  let files := db.fileObjects.rows.filter fun f =>
    decide (f.collectionId = collection.collectionId) && f.active
  if limit = 0 then files else Keyset.sorted (fun f => textRank f.canonicalId) files

/-- `v2_collection_risk_with_findings`. -/
def riskReport (now : Nat) (collection : CollectionSnapshot) (limit : Nat) :
    V2CollectionRisk × List V2RiskFinding :=
  let policy := db.activePolicy collection
  ((db.riskFiles collection limit).map (db.fileRisk now collection policy)).foldl
    (finalizeV2FileRisk limit policy) (⟨0, 0, 0, 0⟩, [])

end Projection

end ArchiveLedger
