import ArchiveLedger.Catalog.Registry
import ArchiveLedger.Projection.Views

/-!
# The coverage of a Collection's content

The query of `collection_risk_coverage.sql` over a projection, stage by stage: the
Locations that hold a content with fresh evidence (`eligible`), those of them whose Device
may be relied on (`qualifying`), and what they add up to for a content (`coverage`).
-/

namespace ArchiveLedger

open Relational

def riskCutoff (now maxDays : Nat) : Int := now - min (maxDays * dayMs) i64Max

/-- A time at or after the cutoff; a missing time is not. -/
def freshSince (cutoff : Int) (time : Option Nat) : Bool := time.any fun t : Nat => decide (cutoff ≤ t)

/-- A row of `qualifying` of one content. -/
structure QualifyingLocation where
  locationId : String
  deviceId : Option String
  siteId : Option String
  expectedAvailability : String
  encryptionState : Option String
deriving DecidableEq, Repr

/-- `?5 IS NOT NULL AND site_id != ?5`. -/
def offsite (homeSite site : Option String) : Bool :=
  match homeSite, site with
  | some home, some site => decide (site ≠ home)
  | _, _ => false

/-- A row of `coverage`. -/
structure Coverage where
  qualifyingCopies : Nat
  devices : Nat
  sites : Nat
  hasOffsite : Bool
  hasOffline : Bool
  hasEncryptedOffsite : Bool
deriving DecidableEq, Repr

/-- What rows of `qualifying` add up to; without rows the `COALESCE` of every column. -/
def Coverage.of (homeSite : Option String) (rows : List QualifyingLocation) : Coverage where
  qualifyingCopies := rows.length
  devices := (rows.filterMap QualifyingLocation.deviceId).dedup.length
  sites := (rows.filterMap QualifyingLocation.siteId).dedup.length
  hasOffsite := rows.any fun r => offsite homeSite r.siteId
  hasOffline := rows.any fun r => decide (r.expectedAvailability = "offline")
  hasEncryptedOffsite :=
    rows.any fun r => offsite homeSite r.siteId && decide (r.encryptionState = some "encrypted")

namespace Projection

variable (db : Projection)

def activeCollection (collectionId : String) : Option CollectionSnapshot :=
  (db.collections.get? collectionId).filter fun c => c.status = "active"

/-- The active and enabled Policy of a Collection. -/
def activePolicy (collection : CollectionSnapshot) : Option PolicySnapshot :=
  (collection.policyId.bind db.policies.get?).filter fun p => p.status = "active" && p.enabled

/-- The conditions of `eligible` on the checks of a Copy. -/
def evidenced (observationCutoff verificationCutoff : Int) (b : CopyBindingRow) : Bool :=
  match db.check? b.latestPresence, db.check? b.latestIntegrity with
  | some p, some v =>
      decide (observationCutoff ≤ p.checkedAt) && decide (verificationCutoff ≤ v.checkedAt) &&
        decide (v.integrity = .verified) &&
        v.error.all fun e => decide (e.1 ≠ "read_error") && decide (e.1 ≠ "identity_mismatch")
  | _, _ => false

/-- The Locations `eligible` pairs with a content. -/
def eligible (observationCutoff verificationCutoff : Int) (content : String) : List String :=
  ((db.copyBindings.rows.filter fun b => decide (b.content = some content) &&
    decide (b.state = .present) && db.evidenced observationCutoff verificationCutoff b).map
      CopyBindingRow.locationId).dedup

/-- The Device of a Location whose status is active. -/
def activeDevice (l : LocationRow) : Option DeviceRow :=
  (l.snapshot.deviceId.bind db.devices.get?).filter fun d => d.snapshot.status = "active"

def qualifyingLocation (checkinCutoff : Int) (locationId : String) : Option QualifyingLocation := do
  let l ← (db.locations.get? locationId).filter fun l => l.snapshot.status = "active"
  let d := db.activeDevice l
  if l.snapshot.deviceId.isNone ∨ (d.any fun d => d.snapshot.identityState = "confirmed" &&
      d.lastFingerprintStatus = some "match" && freshSince checkinCutoff d.lastCheckinTimeUtcMs) then
    some
      { locationId := locationId
        deviceId := l.snapshot.deviceId
        siteId := (d.bind fun d => d.snapshot.currentSiteId).or l.snapshot.siteId
        expectedAvailability := l.snapshot.expectedAvailability
        encryptionState := l.snapshot.encryptionState }
  else none

/-- The row of `coverage` of a content under the requirements of a Policy. -/
def coverage (now : Nat) (homeSite : Option String) (requirements : PolicyRequirements)
    (content : String) : Coverage :=
  Coverage.of homeSite
    ((db.eligible (riskCutoff now requirements.maxObservationAgeDays)
      (riskCutoff now requirements.maxVerificationAgeDays) content).filterMap
        (db.qualifyingLocation (riskCutoff now requirements.maxDeviceCheckinAgeDays)))

end Projection

/-- The checks of a Copy count by what its claim shows of them. -/
theorem evidenced_iff {db : Projection} {b : CopyBindingRow} {cc : CopyClaim} {observation verification : Int}
    (h : db.copyClaim b = some cc) : db.evidenced observation verification b = true ↔
      cc.lastVerificationResult = some .ok ∧ freshSince observation cc.lastSeenTimeUtcMs = true ∧
        freshSince verification cc.lastVerifiedTimeUtcMs = true := by
  obtain ⟨-, -, -, -, hseen, hverified, hresult⟩ := copyClaim_eq_some h
  rw [hseen, hverified, hresult, Projection.evidenced]
  cases db.check? b.latestPresence with
  | none => simp [freshSince]
  | some p =>
    cases db.check? b.latestIntegrity with
    | none => simp [freshSince]
    | some v =>
      rw [Option.bind_some, verificationResult_eq_ok]
      simp only [freshSince, Option.map_some, Option.any_some, Bool.and_eq_true, decide_eq_true_eq]
      tauto

end ArchiveLedger
