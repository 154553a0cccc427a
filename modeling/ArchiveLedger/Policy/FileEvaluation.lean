import ArchiveLedger.Catalog.Queries
import ArchiveLedger.Catalog.Registry
import ArchiveLedger.Foundation.Outcome

/-!
# The evaluation of a File

`evaluate_file` of `policy.rs` with the functions it calls: the tests of a copy
(`assessCopy`), the loss scenarios of the copies that pass them (`lossScenarios`) and the
verdict (`evaluateFile`).  `valid_until`, which the source passes down as a mutable
argument, is part of what each step returns.
-/

namespace ArchiveLedger

inductive PolicyError where
  | invalidRequirements (policyId message : String)
  | invalidState (message : String)
deriving DecidableEq, Repr

abbrev PolicyResult := Except PolicyError

/-- Requirements that `from_json` returns. -/
abbrev AcceptedRequirements :=
  { requirements : PolicyRequirements //
    ∃ policyId, PolicyRequirements.fromJson policyId requirements = .ok () }

/-! ### Facts -/

structure CopyFact where
  copyClaimId : String
  state : String
  objectId : Option String
  lastSeenTimeUtcMs : Option Nat
  lastVerifiedTimeUtcMs : Option Nat
  lastVerificationResult : Option String
  locationId : String
  locationName : String
  locationKind : String
  locationStatus : String
  archiveRootId : Option String
  archiveRootStatus : Option String
  archiveRootDeviceId : Option String
  deviceId : Option String
  deviceName : Option String
  deviceStatus : Option String
  deviceIdentityState : Option String
  deviceExpectedAvailability : Option String
  lastCheckinTimeUtcMs : Option Nat
  lastFingerprintMatchTimeUtcMs : Option Nat
  lastFingerprintStatus : Option String
  siteId : Option String
  siteName : Option String
  siteStatus : Option String
  encryptionState : Option String
  trustLevel : Option String
  locationExpectedAvailability : String
deriving DecidableEq, Repr

structure FileFact where
  fileRefId : String
  objectId : Option String
  identityState : String
  logicalPathDisplay : String
  sizeBytes : Option Nat
  hashAlgo : Option String
  policyId : String
  collectionId : String
  collectionName : String
  homeSiteId : String
  copies : List CopyFact
deriving DecidableEq, Repr

/-- What may be lost as a whole; the source writes the kind before the id. -/
inductive LossDomain where
  | device (id : String)
  | risk (id : String)
  | service (id : String)
  | site (id : String)
deriving DecidableEq, Repr

def LossDomain.kind : LossDomain → String
  | .device _ => "device"
  | .risk _ => "risk"
  | .service _ => "service"
  | .site _ => "site"

def LossDomain.id : LossDomain → String
  | .device id | .risk id | .service id | .site id => id

/-- The names of the active risk domains, and which of them an entity is assigned. -/
structure DomainTopology where
  names : String → Option String
  assignments : String × String → List String

/-- `known` is the `EXISTS` of each assignment's entity. -/
def loadDomainTopology (riskDomains : List RiskDomainSnapshot) (assigned : List RiskAssignment)
    (known : RiskAssignment → Bool) : PolicyResult DomainTopology := do
  let active := riskDomains.filter fun d => d.status = "active"
  let rows := assigned.filter fun a => active.any fun d => d.riskDomainId = a.riskDomainId
  rows.forM fun a => Outcome.require (known a = true)
    (.invalidState ("risk assignment refers to unknown " ++ a.entityType ++ " " ++ a.entityId))
  .ok
    { names := fun id => (active.find? fun d => d.riskDomainId = id).map RiskDomainSnapshot.displayName
      assignments := fun key => (rows.filter fun a => (a.entityType, a.entityId) = key).map
        RiskAssignment.riskDomainId }

structure QualifiedCopy where
  copyClaimId : String
  locationId : String
  locationName : String
  deviceId : Option String
  deviceName : Option String
  siteId : String
  siteName : String
  offsite : Bool
  offline : Bool
  encrypted : Bool
  domains : List LossDomain
deriving DecidableEq, Repr

structure CopyAssessment where
  qualified : Option QualifiedCopy
  reasons : List String
  uncertain : Bool
  validUntil : Option Nat
deriving DecidableEq, Repr

/-! ### The tests of a copy -/

/-- What tests leave behind. -/
structure Findings where
  reasons : List String
  uncertain : Bool
  validUntil : Option Nat
deriving DecidableEq, Repr

def minimumTime : Option Nat → Option Nat → Option Nat
  | some left, some right => some (min left right)
  | some left, none => some left
  | none, right => right

def Findings.none : Findings := ⟨[], false, Option.none⟩

def Findings.reason (reason : String) : Findings := ⟨[reason], false, Option.none⟩

def markUncertain (reason : String) : Findings := ⟨[reason], true, Option.none⟩

/-- The findings of tests made one after the other. -/
def Findings.all (tests : List Findings) : Findings where
  reasons := tests.flatMap Findings.reasons
  uncertain := tests.any Findings.uncertain
  validUntil := tests.foldl (fun found test => minimumTime found test.validUntil) Option.none

def checkFreshness (timestamp : Option Nat) (maxAgeDays now : Nat) (label : String) :
    PolicyResult Findings :=
  match timestamp with
  | .none => .ok (markUncertain (label ++ "_time_missing"))
  | some timestamp =>
      let expiry := timestamp + maxAgeDays * dayMs
      if timestamp > now then .ok (markUncertain (label ++ "_time_in_future"))
      else if maxAgeDays * dayMs ≥ 2 ^ 64 then .error (.invalidState (label ++ " age limit overflows"))
      else if expiry ≥ 2 ^ 64 then .error (.invalidState (label ++ " expiry overflows"))
      else if expiry ≤ now then .ok (markUncertain (label ++ "_stale"))
      else .ok ⟨[], false, some expiry⟩

namespace CopyFact

variable (copy : CopyFact) (file : FileFact) (requirements : PolicyRequirements)

def checkObject : Findings :=
  if copy.objectId ≠ file.objectId then .reason "object_identity_mismatch" else .none

def checkState : Findings :=
  if copy.state ≠ "present" then .reason ("copy_state_" ++ copy.state) else .none

def checkResult : Findings :=
  match copy.lastVerificationResult with
  | some result => if result = "ok" then .none else .reason ("verification_" ++ result)
  | none => markUncertain "verification_missing"

def checkLocation : Findings :=
  if copy.locationStatus ≠ "active" then .reason "location_inactive" else .none

def checkTrust : Findings :=
  if copy.trustLevel = some "trusted" then .none
  else if copy.trustLevel = some "untrusted" then .reason "location_untrusted"
  else markUncertain "location_trust_unknown"

def checkSite : Findings :=
  match copy.siteId with
  | some _ => if copy.siteStatus = some "active" then .none else .reason "site_inactive"
  | none => markUncertain "site_unknown"

/-- The id of an active site; empty when there is none. -/
def activeSiteId : String :=
  match copy.siteId with
  | some siteId => if copy.siteStatus = some "active" then siteId else ""
  | none => ""

/-- The tests of a filesystem Location that read no time. -/
def checkDevice : Findings :=
  .all
    [if copy.archiveRootStatus ≠ some "active" then .reason "archive_root_inactive" else .none,
     if copy.archiveRootDeviceId ≠ copy.deviceId then markUncertain "archive_root_device_mismatch"
     else .none,
     if copy.deviceStatus ≠ some "active" then .reason "device_inactive" else .none,
     if copy.deviceIdentityState ≠ some "confirmed" then markUncertain "device_identity_unconfirmed"
     else .none,
     if copy.lastFingerprintStatus ≠ some "match" then markUncertain "device_fingerprint_not_matched"
     else .none]

def checkKind (now : Nat) : PolicyResult Findings :=
  if copy.locationKind = "filesystem" then do
    let checkin ← checkFreshness copy.lastCheckinTimeUtcMs requirements.maxDeviceCheckinAgeDays now
      "device_checkin"
    let fingerprint ← checkFreshness copy.lastFingerprintMatchTimeUtcMs
      requirements.maxDeviceCheckinAgeDays now "device_fingerprint"
    .ok (.all [copy.checkDevice, checkin, fingerprint])
  else if copy.locationKind ≠ "service" then .ok (markUncertain "location_kind_unknown")
  else .ok .none

def checkEncryption : Findings :=
  if requirements.requireEncryptedOffsite ∧ copy.activeSiteId ≠ file.homeSiteId ∧
      copy.encryptionState ≠ some "encrypted" then
    if copy.encryptionState = some "unencrypted" then .reason "offsite_copy_unencrypted"
    else markUncertain "offsite_encryption_unknown"
  else .none

end CopyFact

/-! ### Loss domains -/

def addCustomDomains (topology : DomainTopology) (entityType : String) (entityId : Option String) :
    List LossDomain :=
  match entityId with
  | some entityId => (topology.assignments (entityType, entityId)).map LossDomain.risk
  | none => []

def CopyFact.domains (copy : CopyFact) (topology : DomainTopology) : List LossDomain :=
  [match copy.deviceId with
   | some deviceId => LossDomain.device deviceId
   | none => LossDomain.service copy.locationId,
   LossDomain.site copy.activeSiteId] ++
  addCustomDomains topology "location" (some copy.locationId) ++
  addCustomDomains topology "archive_root" copy.archiveRootId ++
  addCustomDomains topology "device" copy.deviceId ++
  addCustomDomains topology "site" (some copy.activeSiteId)

def CopyFact.qualified (copy : CopyFact) (file : FileFact) (topology : DomainTopology) :
    QualifiedCopy where
  copyClaimId := copy.copyClaimId
  locationId := copy.locationId
  locationName := copy.locationName
  deviceId := copy.deviceId
  deviceName := copy.deviceName
  siteId := copy.activeSiteId
  siteName := copy.siteName.getD copy.activeSiteId
  offsite := decide (copy.activeSiteId ≠ file.homeSiteId)
  offline := decide (copy.locationExpectedAvailability = "offline") ||
    decide (copy.deviceExpectedAvailability = some "offline")
  encrypted := decide (copy.encryptionState = some "encrypted")
  domains := copy.domains topology

def assessCopy (copy : CopyFact) (file : FileFact) (requirements : PolicyRequirements)
    (topology : DomainTopology) (now : Nat) : PolicyResult CopyAssessment := do
  let verification ← checkFreshness copy.lastVerifiedTimeUtcMs requirements.maxVerificationAgeDays now
    "verification"
  let observation ← checkFreshness copy.lastSeenTimeUtcMs requirements.maxObservationAgeDays now
    "observation"
  let kind ← copy.checkKind requirements now
  let found := Findings.all
    [copy.checkObject file, copy.checkState, copy.checkResult, verification, observation,
     copy.checkLocation, copy.checkTrust, copy.checkSite, kind, copy.checkEncryption file requirements]
  let qualified := if found.reasons = [] then some (copy.qualified file topology) else none
  .ok ⟨qualified, found.reasons, found.uncertain, found.validUntil⟩

structure AffectedCopy where
  copyClaimId : String
  locationId : String
  locationName : String
deriving DecidableEq, Repr

structure LossScenario where
  domainKind : String
  domainId : String
  domainName : String
  affectedCopies : List AffectedCopy
  remainingQualifyingCopies : Nat
  permanentLoss : Bool
deriving DecidableEq, Repr

def domainName (copies : List QualifiedCopy) (topology : DomainTopology) : LossDomain → String
  | .risk id => (topology.names id).getD id
  | .device id =>
      ((copies.find? fun copy => copy.deviceId = some id).bind QualifiedCopy.deviceName).getD id
  | .site id => ((copies.find? fun copy => copy.siteId = id).map QualifiedCopy.siteName).getD id
  | .service id =>
      ((copies.find? fun copy => copy.locationId = id).map QualifiedCopy.locationName).getD id

def lossScenario (copies : List QualifiedCopy) (topology : DomainTopology) (domain : LossDomain) :
    LossScenario :=
  let affected := copies.filter fun copy => copy.domains.contains domain
  let remaining := copies.length - affected.length
  { domainKind := domain.kind
    domainId := domain.id
    domainName := domainName copies topology domain
    affectedCopies := affected.map fun copy => ⟨copy.copyClaimId, copy.locationId, copy.locationName⟩
    remainingQualifyingCopies := remaining
    permanentLoss := !copies.isEmpty && decide (remaining = 0) }

/-- The set of the domains of all copies, ordered as `kind:id`. -/
def lossScenarios (copies : List QualifiedCopy) (topology : DomainTopology) : List LossScenario :=
  (Keyset.sorted (fun domain => textRank (domain.kind ++ ":" ++ domain.id))
    (copies.flatMap QualifiedCopy.domains).dedup).map (lossScenario copies topology)

/-! ### The verdict -/

structure FailedRequirement where
  requirement : String
  /-- What is required and what there is, of a count. -/
  counts : Option (Nat × Nat)
deriving DecidableEq, Repr

structure NonqualifyingCopy where
  copyClaimId : String
  locationId : String
  locationName : String
  reasons : List String
  uncertain : Bool
deriving DecidableEq, Repr

structure QualifyingCopyReview where
  copyClaimId : String
  locationId : String
  locationName : String
  deviceId : Option String
  siteId : String
  offsite : Bool
  offline : Bool
  encrypted : Bool
deriving DecidableEq, Repr

structure EvaluationReasons where
  logicalPath : String
  collectionId : String
  collectionName : String
  identityState : String
  hashAlgo : Option String
  qualifyingCopyCount : Nat
  qualifyingDeviceIds : List String
  qualifyingSiteIds : List String
  failedRequirements : List FailedRequirement
  lossScenarios : List LossScenario
  nonqualifyingCopies : List NonqualifyingCopy
deriving DecidableEq, Repr

inductive PolicyStatus where
  | violated | uncertain
deriving DecidableEq, Repr

/-- No status is `satisfied`. -/
structure FileEvaluation where
  status : Option PolicyStatus
  reasons : EvaluationReasons
  actions : List String
  validUntil : Option Nat
  qualifyingCopies : List QualifyingCopyReview
deriving DecidableEq, Repr

/-- The members of a `BTreeSet` of texts. -/
def textSet (texts : List String) : List String := Keyset.sorted textRank texts.dedup

def FileFact.identityUsable (file : FileFact) : Bool :=
  decide (file.identityState = "resolved") && file.objectId.isSome &&
    decide (file.hashAlgo = some "blake3")

def checkCount (requirement : String) (required actual : Nat) : List FailedRequirement :=
  if actual < required then [⟨requirement, some (required, actual)⟩] else []

def checkMember (requirement : String) (required : Bool) (present : Bool) : List FailedRequirement :=
  if required && !present then [⟨requirement, none⟩] else []

def failedRequirements (requirements : PolicyRequirements) (qualified : List QualifiedCopy) :
    List FailedRequirement :=
  checkCount "min_qualifying_copies" requirements.minQualifyingCopies qualified.length ++
  checkCount "min_devices" requirements.minDevices
    (textSet (qualified.filterMap QualifiedCopy.deviceId)).length ++
  checkCount "min_sites" requirements.minSites (textSet (qualified.map QualifiedCopy.siteId)).length ++
  checkMember "require_offsite_copy" requirements.requireOffsiteCopy
    (qualified.any QualifiedCopy.offsite) ++
  checkMember "require_offline_copy" requirements.requireOfflineCopy
    (qualified.any QualifiedCopy.offline) ++
  checkMember "require_encrypted_offsite" requirements.requireEncryptedOffsite
    (qualified.any fun copy => copy.offsite && copy.encrypted)

/-- `str::contains`. -/
def mentions (reason part : String) : Bool := decide (part.toList <:+: reason.toList)

def recommendedActions (identityUsable : Bool) (failed : List FailedRequirement)
    (nonqualifying : List NonqualifyingCopy) (permanentLoss : Bool) : List String :=
  let reasons := nonqualifying.flatMap NonqualifyingCopy.reasons
  textSet <|
    (if identityUsable then [] else ["resolve the file identity to BLAKE3"]) ++
    reasons.flatMap (fun reason =>
      (if mentions reason "verification" then ["verify the copy again"] else []) ++
      (if mentions reason "observation" then ["scan the location again"] else []) ++
      (if mentions reason "device" || mentions reason "fingerprint" then
        ["connect and check in the expected device"] else []) ++
      (if mentions reason "unknown" || mentions reason "mismatch" then
        ["review and classify the location topology"] else [])) ++
    (if failed ≠ [] ∨ permanentLoss then ["create and verify an independent copy"] else [])

/-- The assessments of the copies of a File; none is assessed before its identity is resolved. -/
def assessCopies (file : FileFact) (requirements : PolicyRequirements) (topology : DomainTopology)
    (now : Nat) : PolicyResult (List (CopyFact × CopyAssessment)) :=
  if file.identityUsable then
    file.copies.mapM fun copy => do
      let assessment ← assessCopy copy file requirements topology now
      .ok (copy, assessment)
  else
    .ok (file.copies.map fun copy =>
      (copy, ⟨none, ["file_identity_not_resolved_to_blake3"], true, none⟩))

def QualifiedCopy.review (copy : QualifiedCopy) : QualifyingCopyReview where
  copyClaimId := copy.copyClaimId
  locationId := copy.locationId
  locationName := copy.locationName
  deviceId := copy.deviceId
  siteId := copy.siteId
  offsite := copy.offsite
  offline := copy.offline
  encrypted := copy.encrypted

/-- The verdict on the copies that qualify, and on whether something is uncertain. -/
def fileStatus (identityUsable : Bool) (requirements : PolicyRequirements) (topology : DomainTopology)
    (qualified : List QualifiedCopy) (uncertainMaterial : Bool) : Option PolicyStatus :=
  let permanentLoss := (lossScenarios qualified topology).any LossScenario.permanentLoss
  if failedRequirements requirements qualified ≠ [] ∨ permanentLoss ∨ ¬ identityUsable then
    some (if uncertainMaterial || !identityUsable then .uncertain else .violated)
  else none

def evaluateFile (file : FileFact) (requirements : PolicyRequirements) (topology : DomainTopology)
    (now : Nat) : PolicyResult FileEvaluation := do
  let assessments ← assessCopies file requirements topology now
  let qualified := assessments.filterMap fun a => a.2.qualified
  let nonqualifying := (assessments.filter fun a => a.2.qualified.isNone).map fun a =>
    (⟨a.1.copyClaimId, a.1.locationId, a.1.locationName, a.2.reasons, a.2.uncertain⟩ : NonqualifyingCopy)
  let uncertainMaterial := !file.identityUsable || nonqualifying.any NonqualifyingCopy.uncertain
  let scenarios := lossScenarios qualified topology
  let failed := failedRequirements requirements qualified
  .ok
    { status := fileStatus file.identityUsable requirements topology qualified uncertainMaterial
      reasons :=
        { logicalPath := file.logicalPathDisplay
          collectionId := file.collectionId
          collectionName := file.collectionName
          identityState := file.identityState
          hashAlgo := file.hashAlgo
          qualifyingCopyCount := qualified.length
          qualifyingDeviceIds := textSet (qualified.filterMap QualifiedCopy.deviceId)
          qualifyingSiteIds := textSet (qualified.map QualifiedCopy.siteId)
          failedRequirements := failed
          lossScenarios := scenarios
          nonqualifyingCopies := nonqualifying }
      actions := recommendedActions file.identityUsable failed nonqualifying
        (scenarios.any LossScenario.permanentLoss)
      validUntil := assessments.foldl (fun found a => minimumTime found a.2.validUntil) none
      qualifyingCopies := qualified.map QualifiedCopy.review }

end ArchiveLedger
