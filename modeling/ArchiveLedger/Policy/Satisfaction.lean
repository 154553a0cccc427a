import ArchiveLedger.Policy.Verdict

/-!
# Satisfaction means redundancy

A File is satisfied exactly when its identity is resolved and its qualifying copies are
redundant (`satisfied_iff`).  Redundancy grows with the copies and shrinks with the domains
and the requirements, so the verdict does (`satisfied_is_redundant`).
-/

namespace ArchiveLedger

open Transition

variable {copy : CopyFact} {file : FileFact} {requirements : PolicyRequirements}
  {topology : DomainTopology} {now : Nat}

/-! ### Satisfaction -/

def Satisfied (file : FileFact) (requirements : PolicyRequirements) (topology : DomainTopology)
    (now : Nat) : Prop :=
  ∃ e, evaluateFile file requirements topology now = .ok e ∧ e.status = none

def Unsatisfied (file : FileFact) (requirements : PolicyRequirements) (topology : DomainTopology)
    (now : Nat) : Prop :=
  ∃ e status, evaluateFile file requirements topology now = .ok e ∧ e.status = some status

theorem not_unsatisfied (h : Satisfied file requirements topology now) :
    ¬ Unsatisfied file requirements topology now := by
  rintro ⟨e, status, he, hstatus⟩
  obtain ⟨e', he', hnone⟩ := h
  rw [he] at he'
  cases he'
  exact absurd (hnone.symm.trans hstatus) nofun

theorem ranged_of_unsatisfied (h : Unsatisfied file requirements topology now)
    (husable : file.identityUsable = true) : file.Ranged requirements now := by
  obtain ⟨e, _, he, -⟩ := h
  exact (evaluateFile_eq_ok he).1 husable

theorem satisfied_iff (requirements : AcceptedRequirements) :
    Satisfied file requirements.val topology now ↔ file.Ranged requirements.val now ∧
      file.identityUsable = true ∧
        Redundant file requirements.val topology (file.qualifying requirements.val now) := by
  have hcounted : file.identityUsable = true →
      file.counted requirements.val now = file.qualifying requirements.val now := fun h => if_pos h
  have hqualifies : ∀ copy ∈ file.counted requirements.val now, copy.Qualifies file requirements.val now := by
    intro copy hcopy
    unfold FileFact.counted at hcopy
    split at hcopy
    · exact (mem_qualifying.mp hcopy).2
    · exact absurd hcopy List.not_mem_nil
  constructor
  · rintro ⟨e, he, hnone⟩
    obtain ⟨hranged, hevaluated⟩ := evaluateFile_eq_ok he
    obtain ⟨u, -, hstatus⟩ := hevaluated.status
    rw [hnone] at hstatus
    obtain ⟨husable, hred⟩ :=
      (fileStatus_eq_none hqualifies requirements.minQualifyingCopies_pos).mp hstatus.symm
    rw [hcounted husable] at hred
    exact ⟨hranged husable, husable, hred⟩
  · rintro ⟨hranged, husable, hred⟩
    obtain ⟨e, he⟩ : ∃ e, evaluateFile file requirements topology now = .ok e :=
      evaluateFile_isOk fun _ => hranged
    obtain ⟨u, -, hstatus⟩ := (evaluateFile_eq_ok he).2.status
    refine ⟨e, he, hstatus.trans ?_⟩
    rw [fileStatus_eq_none hqualifies requirements.minQualifyingCopies_pos, hcounted husable]
    exact ⟨husable, hred⟩

/-! ### More copies, fewer domains, stricter requirements -/

/-- At least as strict in every field. -/
structure PolicyRequirements.Le (requirements stricter : PolicyRequirements) : Prop where
  copies : requirements.minQualifyingCopies ≤ stricter.minQualifyingCopies
  devices : requirements.minDevices ≤ stricter.minDevices
  sites : requirements.minSites ≤ stricter.minSites
  offsite : requirements.requireOffsiteCopy = true → stricter.requireOffsiteCopy = true
  offline : requirements.requireOfflineCopy = true → stricter.requireOfflineCopy = true
  encrypted : requirements.requireEncryptedOffsite = true → stricter.requireEncryptedOffsite = true
  verification : stricter.maxVerificationAgeDays ≤ requirements.maxVerificationAgeDays
  observation : stricter.maxObservationAgeDays ≤ requirements.maxObservationAgeDays
  checkin : stricter.maxDeviceCheckinAgeDays ≤ requirements.maxDeviceCheckinAgeDays

theorem Redundant.mono {copies copies' : List CopyFact} (h : Redundant file requirements topology copies)
    (hsub : copies.Sublist copies') : Redundant file requirements topology copies' where
  enough := le_trans h.enough hsub.length_le
  devices := le_trans h.devices (Redundancy.length_dedup_le (hsub.filterMap _).subset)
  sites := le_trans h.sites (Redundancy.length_dedup_le (hsub.filterMap _).subset)
  offsite := fun hreq => (h.offsite hreq).imp fun _ hc => ⟨hsub.subset hc.1, hc.2⟩
  offline := fun hreq => (h.offline hreq).imp fun _ hc => ⟨hsub.subset hc.1, hc.2⟩
  encrypted := fun hreq => (h.encrypted hreq).imp fun _ hc => ⟨hsub.subset hc.1, hc.2⟩
  survives := h.survives.mono hsub.subset

theorem Redundant.of_le {stricter : PolicyRequirements} {copies : List CopyFact}
    (h : Redundant file stricter topology copies) (hle : requirements.Le stricter) :
    Redundant file requirements topology copies where
  enough := le_trans hle.copies h.enough
  devices := le_trans hle.devices h.devices
  sites := le_trans hle.sites h.sites
  offsite := fun hreq => h.offsite (hle.offsite hreq)
  offline := fun hreq => h.offline (hle.offline hreq)
  encrypted := fun hreq => h.encrypted (hle.encrypted hreq)
  survives := h.survives

theorem liesIn_of_assigned {topology' : DomainTopology}
    (h : ∀ entity, topology'.assignments entity ⊆ topology.assignments entity) {domain : LossDomain}
    (hin : copy.LiesIn topology' domain) : copy.LiesIn topology domain := by
  cases domain with
  | device id => exact hin
  | service id => exact hin
  | site id => exact hin
  | risk id =>
    obtain ⟨entity, hentity, entityId, hid, hassigned⟩ := hin
    exact ⟨entity, hentity, entityId, hid, h _ hassigned⟩

theorem Redundant.of_assigned {topology' : DomainTopology} {copies : List CopyFact}
    (h : Redundant file requirements topology copies)
    (hless : ∀ entity, topology'.assignments entity ⊆ topology.assignments entity) :
    Redundant file requirements topology' copies :=
  ⟨h.enough, h.devices, h.sites, h.offsite, h.offline, h.encrypted,
    h.survives.anti fun _ _ _ hin => liesIn_of_assigned hless hin⟩

theorem FreshAt.mono {time : Option Nat} {maxDays maxDays' : Nat} (h : FreshAt now time maxDays)
    (hle : maxDays ≤ maxDays') : FreshAt now time maxDays' := by
  obtain ⟨s, hs, hpast, hlive⟩ := h
  exact ⟨s, hs, hpast, lt_of_lt_of_le hlive (Nat.add_le_add_left (Nat.mul_le_mul_right _ hle) s)⟩

/-- A copy that qualifies under stricter requirements qualifies. -/
theorem qualifies_of_le {stricter : PolicyRequirements} (h : copy.Qualifies file stricter now)
    (hle : requirements.Le stricter) : copy.Qualifies file requirements now where
  sound :=
    { h.sound with encryption := fun hreq hsite => h.sound.encryption (hle.encrypted hreq) hsite }
  current := by
    have hcurrent := h.current
    unfold CopyFact.Current CopyFact.testedTimes CopyFact.deviceTimes at hcurrent ⊢
    rw [List.forall_mem_append] at hcurrent ⊢
    obtain ⟨hcopy, hdevice⟩ := hcurrent
    simp only [List.forall_mem_cons, List.not_mem_nil, false_imp_iff, implies_true, and_true] at hcopy ⊢
    refine ⟨⟨hcopy.1.mono hle.verification, hcopy.2.mono hle.observation⟩, ?_⟩
    split
    · rename_i hkind
      rw [if_pos hkind] at hdevice
      simp only [List.forall_mem_cons, List.not_mem_nil, false_imp_iff, implies_true, and_true]
        at hdevice ⊢
      exact ⟨hdevice.1.mono hle.checkin, hdevice.2.mono hle.checkin⟩
    · exact fun x hx => absurd hx List.not_mem_nil

theorem qualifying_sublist {stricter : PolicyRequirements} (hle : requirements.Le stricter) :
    (file.qualifying stricter now).Sublist (file.qualifying requirements now) := by
  classical
  refine List.monotone_filter_right file.copies fun copy hcopy => ?_
  exact decide_eq_true (qualifies_of_le (of_decide_eq_true hcopy) hle)

/-- The tests and the requirements do not read the other copies. -/
theorem qualifies_copies {copies : List CopyFact} :
    copy.Qualifies { file with copies := copies } requirements now ↔ copy.Qualifies file requirements now := by
  constructor
  · rintro ⟨⟨h₁, h₂, h₃, h₄, h₅, h₆, h₇, h₈⟩, hcurrent⟩
    exact ⟨⟨h₁, h₂, h₃, h₄, h₅, h₆, h₇, h₈⟩, hcurrent⟩
  · rintro ⟨⟨h₁, h₂, h₃, h₄, h₅, h₆, h₇, h₈⟩, hcurrent⟩
    exact ⟨⟨h₁, h₂, h₃, h₄, h₅, h₆, h₇, h₈⟩, hcurrent⟩

theorem Redundant.copies {copies counted : List CopyFact} (h : Redundant file requirements topology counted) :
    Redundant { file with copies := copies } requirements topology counted :=
  ⟨h.enough, h.devices, h.sites, h.offsite, h.offline, h.encrypted, h.survives⟩

theorem qualifying_copies {copies : List CopyFact} (h : file.copies.Sublist copies) :
    (file.qualifying requirements now).Sublist
      (FileFact.qualifying { file with copies := copies } requirements now) := by
  classical
  refine (h.filter _).trans (List.monotone_filter_right copies fun copy hcopy => ?_)
  exact decide_eq_true (qualifies_copies.mpr (of_decide_eq_true hcopy))

/-- A File is satisfied exactly when its identity is resolved and its qualifying copies are
redundant, as long as no time counts beyond the range of a `u64`; more copies do not make it
unsatisfied, fewer assignments keep it satisfied and stricter requirements do not make it so. -/
theorem satisfied_is_redundant (file : FileFact) (requirements : AcceptedRequirements)
    (topology : DomainTopology) (now : Nat) :
    (Satisfied file requirements.val topology now ↔ file.Ranged requirements.val now ∧
      file.identityUsable = true ∧
        Redundant file requirements.val topology (file.qualifying requirements.val now)) ∧
    (∀ copies : List CopyFact, file.copies.Sublist copies →
      Satisfied file requirements.val topology now →
        ¬ Unsatisfied { file with copies := copies } requirements.val topology now) ∧
    (∀ topology' : DomainTopology,
      (∀ entity, topology'.assignments entity ⊆ topology.assignments entity) →
        Satisfied file requirements.val topology now →
          Satisfied file requirements.val topology' now) ∧
    (∀ stricter : AcceptedRequirements, requirements.val.Le stricter.val →
      Unsatisfied file requirements.val topology now →
        ¬ Satisfied file stricter.val topology now) := by
  refine ⟨satisfied_iff requirements, ?_, ?_, ?_⟩
  · intro copies hsub hsat hunsat
    obtain ⟨-, husable, hred⟩ := (satisfied_iff requirements).mp hsat
    have hranged := ranged_of_unsatisfied hunsat husable
    refine not_unsatisfied ((satisfied_iff requirements).mpr ⟨hranged, husable, ?_⟩) hunsat
    exact (hred.mono (qualifying_copies hsub)).copies
  · intro topology' hless hsat
    obtain ⟨hranged, husable, hred⟩ := (satisfied_iff requirements).mp hsat
    exact (satisfied_iff requirements).mpr ⟨hranged, husable, hred.of_assigned hless⟩
  · intro stricter hle hunsat hsat
    obtain ⟨-, husable, hred⟩ := (satisfied_iff stricter).mp hsat
    have hranged := ranged_of_unsatisfied hunsat husable
    refine not_unsatisfied ((satisfied_iff requirements).mpr ⟨hranged, husable, ?_⟩) hunsat
    exact (hred.of_le hle).mono (qualifying_sublist hle)

namespace Sample

/-- A copy on a device of its own at a site of its own. -/
def reviewedFact (name : String) (time : Nat) : CopyFact where
  copyClaimId := "copy_" ++ name
  state := "present"
  objectId := some "object_letter"
  lastSeenTimeUtcMs := some time
  lastVerifiedTimeUtcMs := some time
  lastVerificationResult := some "ok"
  locationId := "location_" ++ name
  locationName := name
  locationKind := "filesystem"
  locationStatus := "active"
  archiveRootId := some ("root_" ++ name)
  archiveRootStatus := some "active"
  archiveRootDeviceId := some ("device_" ++ name)
  deviceId := some ("device_" ++ name)
  deviceName := some name
  deviceStatus := some "active"
  deviceIdentityState := some "confirmed"
  deviceExpectedAvailability := some "online"
  lastCheckinTimeUtcMs := some time
  lastFingerprintMatchTimeUtcMs := some time
  lastFingerprintStatus := some "match"
  siteId := some ("site_" ++ name)
  siteName := some name
  siteStatus := some "active"
  encryptionState := some "encrypted"
  trustLevel := some "trusted"
  locationExpectedAvailability := "online"

def reviewedFile (copies : List CopyFact) : FileFact where
  fileRefId := "file_letter"
  objectId := some "object_letter"
  identityState := "resolved"
  logicalPathDisplay := "letter.txt"
  sizeBytes := some 5
  hashAlgo := some "blake3"
  policyId := "policy_main"
  collectionId := "collection_main"
  collectionName := "Family archive"
  homeSiteId := "site_home"
  copies := copies

/-- The largest age limits that are accepted. -/
def widestRequirements : PolicyRequirements where
  minQualifyingCopies := 2
  minDevices := 2
  minSites := 2
  requireOffsiteCopy := true
  requireOfflineCopy := false
  requireEncryptedOffsite := false
  maxVerificationAgeDays := 213503982334
  maxObservationAgeDays := 213503982334
  maxDeviceCheckinAgeDays := 213503982334

def unassigned : DomainTopology := ⟨fun _ => none, fun _ => []⟩

theorem reviewedFact_sound {requirements : PolicyRequirements} {name : String} {time : Nat}
    {copies : List CopyFact} : (reviewedFact name time).Sound (reviewedFile copies) requirements where
  object := rfl
  state := rfl
  result := rfl
  location := rfl
  trust := rfl
  site := ⟨nofun, rfl⟩
  kind := Or.inl ⟨rfl, rfl, rfl, rfl, rfl, rfl⟩
  encryption := fun _ _ => rfl

theorem reviewedFact_current {name : String} {time now : Nat} (hpast : time ≤ now) (hnow : now ≤ 70000000) :
    (reviewedFact name time).Current widestRequirements now := by
  have hfresh : FreshAt now (some time) 213503982334 := by
    refine ⟨time, rfl, hpast, ?_⟩
    unfold dayMs
    omega
  show ∀ x ∈ [(some time, 213503982334), (some time, 213503982334), (some time, 213503982334),
    (some time, 213503982334)], FreshAt now x.1 x.2
  simp only [List.forall_mem_cons, List.not_mem_nil, false_imp_iff, implies_true, and_true]
  exact ⟨hfresh, hfresh, hfresh, hfresh⟩

/-- Two copies that were looked at long ago, and one whose times leave the range of a `u64` when
the age limit is added. -/
def overflowing : FileFact :=
  reviewedFile [reviewedFact "attic" 1000, reviewedFact "office" 1000, reviewedFact "safe" 60000000]

theorem overflowing_redundant :
    Redundant overflowing widestRequirements unassigned
      (overflowing.qualifying widestRequirements 70000000) := by
  have hall : overflowing.qualifying widestRequirements 70000000 = overflowing.copies := by
    classical
    refine List.filter_eq_self.mpr fun copy hcopy => decide_eq_true ?_
    simp only [overflowing, reviewedFile, List.mem_cons, List.not_mem_nil, or_false] at hcopy
    rcases hcopy with rfl | rfl | rfl
    · exact ⟨reviewedFact_sound, reviewedFact_current (by omega) (by omega)⟩
    · exact ⟨reviewedFact_sound, reviewedFact_current (by omega) (by omega)⟩
    · exact ⟨reviewedFact_sound, reviewedFact_current (by omega) (by omega)⟩
  rw [hall]
  have hattic : reviewedFact "attic" 1000 ∈ overflowing.copies := List.mem_cons_self
  have hoffsite : (reviewedFact "attic" 1000).Offsite overflowing := by
    show some "site_attic" ≠ some "site_home"
    decide
  refine ⟨by decide, by decide, by decide, fun _ => ⟨_, hattic, hoffsite⟩, nofun, nofun, ?_⟩
  refine (Redundancy.survives_iff (List.cons_ne_nil _ _)).mpr fun domain _ => ?_
  have hoffice : reviewedFact "office" 1000 ∈ overflowing.copies :=
    List.mem_cons_of_mem _ List.mem_cons_self
  cases domain with
  | device id =>
    by_cases hid : id = "device_attic"
    · rw [hid]
      have hout : some "device_office" ≠ some "device_attic" := by decide
      exact ⟨_, hoffice, hout⟩
    · exact ⟨_, hattic, fun hin => hid (Option.some.inj hin).symm⟩
  | service id => exact ⟨_, hattic, fun hin => nomatch hin.1⟩
  | site id =>
    by_cases hid : id = "site_attic"
    · rw [hid]
      have hout : some "site_office" ≠ some "site_attic" := by decide
      exact ⟨_, hoffice, hout⟩
    · exact ⟨_, hattic, fun hin => hid (Option.some.inj hin).symm⟩
  | risk id =>
    refine ⟨_, hattic, ?_⟩
    rintro ⟨_, _, _, _, hid⟩
    exact absurd hid List.not_mem_nil

theorem widest_accepted : PolicyRequirements.fromJson "policy_main" widestRequirements = .ok () := by
  simp [PolicyRequirements.fromJson, refuseIf, widestRequirements, dayMs]
  rfl

/-- Redundant copies of a File whose identity is resolved, accepted requirements, and no verdict. -/
theorem overflowing_unsatisfied : ¬ ∀ (file : FileFact) (requirements : AcceptedRequirements)
    (topology : DomainTopology) (now : Nat),
    Satisfied file requirements.val topology now ↔ file.identityUsable = true ∧
      Redundant file requirements.val topology (file.qualifying requirements.val now) := by
  intro h
  obtain ⟨e, he, -⟩ := (h overflowing ⟨widestRequirements, "policy_main", widest_accepted⟩ unassigned 70000000).mpr
    ⟨rfl, overflowing_redundant⟩
  have hsafe : reviewedFact "safe" 60000000 ∈ overflowing.copies :=
    List.mem_cons_of_mem _ (List.mem_cons_of_mem _ List.mem_cons_self)
  have hrange := (evaluateFile_eq_ok he).1 rfl _ hsafe _ List.mem_cons_self 60000000 rfl (by omega)
  have hwidest : 2 ^ 64 ≤ 60000000 + widestRequirements.maxVerificationAgeDays * dayMs := by
    show 2 ^ 64 ≤ 60000000 + 213503982334 * 86400000
    omega
  exact absurd hrange (not_lt.mpr hwidest)

end Sample

end ArchiveLedger
