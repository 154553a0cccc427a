import ArchiveLedger.Compact.Views
import ArchiveLedger.Policy.Review

/-!
# The risk queries

`collection_risk_coverage.sql` with the two queries of `main.rs` built on it, and the queries
over the views that they replace (`OLD_SUMMARY` and `OLD_DETAILS` of
`risk_query_tests.rs`).  Both find the same Locations behind a content
(`perm_located`), so both report the same of every File; the summary counts what
`finalize_v2_file_risk` adds up over the rows of the details.
-/

namespace ArchiveLedger.Compact

open Relational

/-- The parameters `?1` to `?6`. -/
structure RiskParameters where
  collectionId : String
  observationCutoff : Int
  verificationCutoff : Int
  checkinCutoff : Int
  homeSiteId : Option String
  policyActive : Int

/-- The parameters `?7` to `?12`. -/
structure RiskRequirements where
  minQualifyingCopies : Int
  minDevices : Int
  minSites : Int
  requireOffsiteCopy : Int
  requireOfflineCopy : Int
  requireEncryptedOffsite : Int

/-- A row of the details; of the content it is only read whether there is one. -/
structure RiskDetail where
  fileRefId : String
  logicalPath : String
  objectKnown : Bool
  sizeBytes : Option Nat
  coverage : Coverage
deriving DecidableEq

/-- `e.code IS NULL OR e.code NOT IN ('read_error', 'identity_mismatch')`. -/
def harmless (e : Option CheckErrorRow) : Bool :=
  e.all fun e => decide (e.code ≠ "read_error") && decide (e.code ≠ "identity_mismatch")

/-- A row of `qualifying`, if the Location gives one. -/
def qualifyingLocation (q : RiskParameters) (l : LocationRow) (d : Option DeviceRow) :
    Option QualifyingLocation :=
  if l.deviceId.isNone ∨ (d.any fun d => d.identityState = "confirmed" &&
      d.lastFingerprintStatus = some "match" &&
      d.lastCheckinTimeUtcMs.any fun time => decide (q.checkinCutoff ≤ time)) then
    some
      { locationId := l.locationId
        deviceId := l.deviceId
        siteId := (d.bind DeviceRow.currentSiteId).or l.siteId
        expectedAvailability := l.expectedAvailability
        encryptionState := l.encryptionState }
  else none

namespace Tables

variable (t : Tables) (q : RiskParameters)

/-- `(SELECT id FROM collections WHERE collection_id = ?1)`. -/
def collectionKey (collectionId : String) : Option Int :=
  (scalar (t.collections.rows.filter fun c => decide (c.collectionId = collectionId))).map CollectionRow.id

/-! ### The queries on integer keys -/

def selectedContent : List Int :=
  ((t.fileObjects.rows.filter fun f => same (some f.collectionId) (t.collectionKey q.collectionId) &&
    f.active && decide (q.policyActive = 1)).filterMap FileObjectRow.contentId).dedup

def eligible : List (Option Int × Int) :=
  ((t.selectedContent q).flatMap fun s =>
    (t.copyBindings.rows.filter fun b => same b.contentId (some s) && decide (b.state = .present)).flatMap
      fun b =>
    (t.checks.rows.filter fun p => same (some p.id) b.latestPresence &&
      decide (q.observationCutoff ≤ p.checkedAt)).flatMap fun _ =>
    (t.checks.rows.filter fun v => same (some v.id) b.latestIntegrity &&
      (decide (q.verificationCutoff ≤ v.checkedAt) && decide (v.integrity = .verified))).flatMap fun v =>
    (leftJoin t.checkErrors.rows fun e => same (some e.checkId) (some v.id)).flatMap fun e =>
    if harmless e then [(b.contentId, b.locationId)] else []).dedup

def qualifying : List (Option Int × QualifyingLocation) :=
  (t.eligible q).flatMap fun e =>
  (t.locations.rows.filter fun l => decide (l.id = e.2) && decide (l.status = "active")).flatMap fun l =>
  (leftJoin t.devices.rows fun d => same (some d.deviceId) l.deviceId && decide (d.status = "active")).flatMap
    fun d => ((qualifyingLocation q l d).map fun r => (e.1, r)).toList

/-- `coverage`, with its `GROUP BY content_id`. -/
def coverage : List (Option Int × Coverage) :=
  (groups Prod.fst (t.qualifying q)).map fun g => (g.1, Coverage.of q.homeSiteId (g.2.map Prod.snd))

/-- `V2_RISK_DETAILS`. -/
def riskDetails : List RiskDetail :=
  (t.fileObjects.rows.filter fun f =>
    same (some f.collectionId) (t.collectionKey q.collectionId) && f.active).flatMap fun f =>
  (leftJoin t.contentObjects.rows fun o => same (some o.id) f.contentId).flatMap fun o =>
  (leftJoin (t.coverage q) fun c => same c.1 f.contentId).map fun c =>
    { fileRefId := f.canonicalId
      logicalPath := f.pathDisplay.getD (castText f.path.bytes)
      objectKnown := f.contentId.isSome
      sizeBytes := o.map ContentObjectRow.sizeBytes
      coverage := (c.map Prod.snd).getD (Coverage.of q.homeSiteId []) }

/-! ### The queries on the views -/

/-- `eligible` of the old queries; only `OLD_DETAILS` asks for an active Policy. -/
def oldEligible (selected : Bool) : List (Option String × String) :=
  ((t.copyClaims.filter fun c => selected && (decide (c.state = .present) &&
    (decide (c.lastVerificationResult = some .ok) &&
    (c.lastSeenTimeUtcMs.any (fun time => decide (q.observationCutoff ≤ time)) &&
      c.lastVerifiedTimeUtcMs.any fun time => decide (q.verificationCutoff ≤ time))))).map
        fun c => (c.objectId, c.locationId)).dedup

def oldQualifying (selected : Bool) : List (Option String × QualifyingLocation) :=
  (t.oldEligible q selected).flatMap fun e =>
  (t.locations.rows.filter fun l => decide (l.locationId = e.2) && decide (l.status = "active")).flatMap fun l =>
  (leftJoin t.devices.rows fun d => same (some d.deviceId) l.deviceId && decide (d.status = "active")).flatMap
    fun d => ((qualifyingLocation q l d).map fun r => (e.1, r)).toList

def oldCoverage (selected : Bool) : List (Option String × Coverage) :=
  (groups Prod.fst (t.oldQualifying q selected)).map fun g =>
    (g.1, Coverage.of q.homeSiteId (g.2.map Prod.snd))

/-- The joined rows of both old queries. -/
def oldRows (selected : Bool) : List RiskDetail :=
  (t.fileRefs.filter fun f => decide (f.collectionId = q.collectionId) && f.active).flatMap fun f =>
  (leftJoin t.objects fun o => same (some o.objectId) f.objectId).flatMap fun o =>
  (leftJoin (t.oldCoverage q selected) fun c => same c.1 f.objectId).map fun c =>
    { fileRefId := f.fileRefId
      logicalPath := f.logicalPathDisplay
      objectKnown := f.objectId.isSome
      sizeBytes := o.map ObjectView.sizeBytes
      coverage := (c.map Prod.snd).getD (Coverage.of q.homeSiteId []) }

/-- `OLD_DETAILS`. -/
def oldDetails : List RiskDetail :=
  Keyset.sorted (fun r => textRank r.fileRefId) (t.oldRows q (decide (q.policyActive = 1)))

end Tables

/-! ### Totals -/

/-- The condition under which a File with known content is at risk. -/
def RiskRequirements.violatedBy (r : RiskRequirements) (c : Coverage) : Bool :=
  decide ((c.qualifyingCopies : Int) < r.minQualifyingCopies) ||
    (decide ((c.devices : Int) < r.minDevices) ||
    (decide ((c.sites : Int) < r.minSites) ||
    (decide (r.requireOffsiteCopy = 1) && !c.hasOffsite ||
    (decide (r.requireOfflineCopy = 1) && !c.hasOffline ||
      decide (r.requireEncryptedOffsite = 1) && !c.hasEncryptedOffsite))))

/-- The sums both summaries select; SQLite fails when the known sizes overflow. -/
def riskTotals (r : RiskRequirements) (rows : List RiskDetail) : Option V2CollectionRisk := do
  let known ← total? i64Max (rows.map fun row => row.sizeBytes.getD 0)
  some
    { fileCount := rows.length
      knownSizeBytes := known
      filesAtRisk := rows.countP fun row => row.objectKnown && r.violatedBy row.coverage
      filesUncertain := rows.countP fun row => !row.objectKnown }

/-- `V2_RISK_TOTALS`. -/
def Tables.riskTotals (t : Tables) (q : RiskParameters) (r : RiskRequirements) : Option V2CollectionRisk :=
  Compact.riskTotals r (t.riskDetails q)

/-- `OLD_SUMMARY`. -/
def Tables.oldSummary (t : Tables) (q : RiskParameters) (r : RiskRequirements) : Option V2CollectionRisk :=
  Compact.riskTotals r (t.oldRows q true)

end ArchiveLedger.Compact
